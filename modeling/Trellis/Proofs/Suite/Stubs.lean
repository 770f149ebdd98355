import Trellis.Config.Basic
import Trellis.Proofs.Suite.Cases

/-! # Stubs

Which callback props a generated test passes a stub for.

Whether a prop is a callback is decided by the analysis, its value by `Mock.value` with rules of its
own. A rule that comes before the one for callbacks settles some props (`Mock.IsSettled`): those that
are named `children`, and those whose type or name stands for a value that is no function.

* `Mock.value_of_callback` and `Mock.forced_of_callback`: every other callback has the stub.
* `Suite.TracksCallbacks` says what this means for the tests of a component;
  `Suite.tracksCallbacks` that it holds of every component of a source.
* `Suite.untracked_callbacks` shows callbacks that no stub is passed for. -/

namespace Trellis

namespace Mock

/-- Whether a rule before the one for callbacks settles the value of a prop. -/
def IsSettled (p : ComponentProp) : Prop :=
  p.name = "children" ∨ (TypeShape.classify p.type).isValue = true ∨
    (TypeShape.classify p.type = .unknown ∧ PropName.isBoolean p.name = true)

variable {f : Framework} {p : ComponentProp}

theorem fallback_of_callback (shape : TypeShape) (hc : p.isCallback = true) :
    fallback f p shape = f.stub := by
  unfold fallback
  rw [hc, Bool.true_or, Bool.true_or, if_pos rfl]

/-- The default value of a callback is the stub, unless an earlier rule settles it. -/
theorem value_of_callback (hc : p.isCallback = true) (hs : ¬ IsSettled p) :
    value f p = f.stub := by
  simp only [IsSettled, not_or, not_and] at hs
  obtain ⟨hname, hvalue, hunknown⟩ := hs
  unfold value
  rw [if_neg hname]
  cases hshape : TypeShape.classify p.type with
  | node => exact absurd (by rw [hshape]; rfl) hvalue
  | string literal => exact absurd (by rw [hshape]; rfl) hvalue
  | number literal => exact absurd (by rw [hshape]; rfl) hvalue
  | boolean => exact absurd (by rw [hshape]; rfl) hvalue
  | unknown =>
      simp only [if_neg (hunknown hshape)]
      exact fallback_of_callback _ hc
  | callback => exact fallback_of_callback _ hc
  | array => exact fallback_of_callback _ hc
  | object => exact fallback_of_callback _ hc

/-- Only a prop that an earlier rule settles is passed as a truth value. -/
theorem isSettled_of_isBooleanLike (hb : p.isBoolean = true → p.type = "boolean")
    (h : isBooleanLike p = true) : IsSettled p := by
  have hboolean : TypeShape.classify "boolean" = .boolean := by decide +kernel
  unfold isBooleanLike at h
  rcases Bool.or_eq_true_iff.mp h with h | h
  · rw [IsSettled, hb h, hboolean]
    exact .inr (.inl rfl)
  · cases hshape : TypeShape.classify p.type with
    | boolean => exact .inr (.inl (by rw [hshape]; rfl))
    | unknown =>
        rw [hshape] at h
        exact .inr (.inr ⟨hshape, h⟩)
    | node => rw [hshape] at h; cases h
    | string literal => rw [hshape] at h; cases h
    | number literal => rw [hshape] at h; cases h
    | callback => rw [hshape] at h; cases h
    | array => rw [hshape] at h; cases h
    | object => rw [hshape] at h; cases h

theorem isFalsyDefault_stub (f : Framework) : isFalsyDefault f.stub = false := by
  cases f <;> decide

/-- A callback that is forced to be there is the stub, unless an earlier rule settles it. -/
theorem forced_of_callback (hb : p.isBoolean = true → p.type = "boolean")
    (hc : p.isCallback = true) (hs : ¬ IsSettled p) (truthy : Bool) :
    forced f p truthy = if truthy then f.stub else absent := by
  have hlike : isBooleanLike p = false :=
    Bool.eq_false_iff.mpr fun h => hs (isSettled_of_isBooleanLike hb h)
  unfold forced
  rw [hlike, value_of_callback hc hs, isFalsyDefault_stub]
  cases truthy <;> rfl

end Mock

namespace Suite

/-! ### Overrides -/

section overrides
variable {f : Framework} {c : Component} {o : Override}

theorem mem_forcedProps {truthy : Bool} {names : List String} (h : o ∈ forcedProps f c truthy names) :
    o.prop ∈ c.props ∧ o.prop.name ∈ names ∧ o.truthy = truthy ∧
      o.value = Mock.forced f o.prop truthy := by
  obtain ⟨name, hname, ho⟩ := List.mem_filterMap.mp h
  obtain ⟨p, hp, rfl⟩ := Option.map_eq_some_iff.mp ho
  have heq : p.name = name := by simpa using List.find?_some hp
  exact ⟨List.mem_of_find?_eq_some hp, heq ▸ hname, rfl, rfl⟩

/-- An override forces a gating prop of its element. -/
theorem mem_overrides {e : ConditionalElement} (h : o ∈ overrides f c e) :
    o.prop ∈ c.props ∧ o.value = Mock.forced f o.prop o.truthy ∧
      o.prop.name ∈ (if o.truthy then e.requiredProps else e.falsyProps) := by
  rcases List.mem_append.mp h with h | h
  · obtain ⟨hp, hn, ht, hv⟩ := mem_forcedProps h
    rw [ht]
    exact ⟨hp, hv, hn⟩
  · obtain ⟨hp, hn, ht, hv⟩ := mem_forcedProps h
    rw [ht]
    exact ⟨hp, hv, hn⟩

end overrides

/-! ### Default props -/

theorem mem_defaultProps {f : Framework} {c : Component} {d : ComponentProp × String} :
    d ∈ defaultProps f c ↔
      d.1 ∈ c.props ∧ (d.1.isRequired || d.1.isCallback) = true ∧ d.2 = Mock.value f d.1 := by
  simp only [defaultProps, List.mem_map, List.mem_filter]
  constructor
  · rintro ⟨p, ⟨hp, hneeded⟩, rfl⟩
    exact ⟨hp, hneeded, rfl⟩
  · rintro ⟨hp, hneeded, hv⟩
    exact ⟨d.1, ⟨hp, hneeded⟩, Prod.ext rfl hv.symm⟩

/-- Every default prop is a line of its group. -/
theorem line_mem_layout (s : Settings) (pass : Pass) (typed : Bool) {c : Component}
    {d : ComponentProp × String} (h : d ∈ defaultProps s.framework c) :
    .line 2 (propKey d.1.name ++ ": " ++ d.2 ++ ",") ∈
      (Group.ofComponent s pass c).layout s typed := by
  have hdefaults : (Group.ofComponent s pass c).defaults = defaultProps s.framework c := rfl
  have hne : (Group.ofComponent s pass c).defaults.isEmpty = false := by
    rw [hdefaults, List.isEmpty_eq_false_iff]
    exact List.ne_nil_of_mem h
  have hline : Layout.line 2 (propKey d.1.name ++ ": " ++ d.2 ++ ",") ∈
      defaultsLayout typed (Group.ofComponent s pass c) := by
    unfold defaultsLayout
    simp only [hne, Bool.false_eq_true, if_false]
    refine List.mem_append_left _ (List.mem_cons_of_mem _ ?_)
    exact List.mem_map.mpr ⟨d, hdefaults ▸ h, rfl⟩
  unfold Group.layout
  simp only [List.append_assoc]
  exact List.mem_cons_of_mem _ (List.mem_append_left _ hline)

/-! ### Callbacks of a component -/

/-- What the tests of a component do with its callbacks. -/
structure TracksCallbacks (s : Settings) (pass : Pass) (c : Component) : Prop where
  /-- A callback has one entry among the default props, and the entry is printed. -/
  entry : ∀ p ∈ c.props, p.isCallback = true →
    (∀ d, (d ∈ defaultProps s.framework c ∧ d.1.name = p.name) ↔
      d = (p, Mock.value s.framework p)) ∧
    ∀ typed, .line 2 (propKey p.name ++ ": " ++ Mock.value s.framework p ++ ",") ∈
      (Group.ofComponent s pass c).layout s typed
  /-- The entry is the stub, unless an earlier rule settles it. -/
  stub : ∀ p ∈ c.props, p.isCallback = true → ¬ Mock.IsSettled p →
    Mock.value s.framework p = s.framework.stub
  /-- What is passed for `children` is markup. -/
  children : ∀ p ∈ c.props, p.name = "children" → Mock.value s.framework p = Mock.node
  /-- What is asserted of a default prop is that a callback was called. -/
  asserted : ∀ t ∈ testCases s pass c, ∀ line ∈ t.body, assertsDefault line = true →
    ∃ p ∈ c.props, p.isCallback = true ∧ line = expectCalled p.name
  /-- A gated element is rendered with the stub, or without the callback when that must be falsy. -/
  overridden : ∀ e ∈ c.conditional, ∀ o ∈ overrides s.framework c e, o.prop.isCallback = true →
    ¬ Mock.IsSettled o.prop → o.value = if o.truthy then s.framework.stub else Mock.absent
  /-- No callback but a settled one is passed as a truth value. -/
  varied : ∀ p ∈ c.booleanProps, Mock.IsSettled p

/-- The tests of every component of a source track its callbacks. -/
theorem tracksCallbacks {modules : Modules} {src : Source} {c : Component}
    (h : c ∈ Analysis.components modules src) (s : Settings) (pass : Pass) :
    TracksCallbacks s pass c := by
  have hc := Analysis.isAnalyzed h
  have hboolean : ∀ p ∈ c.props, p.isBoolean = true → p.type = "boolean" :=
    fun p hp hb => hc.type_of_isBoolean hp hb
  refine ⟨fun p hp hcall => ⟨fun d => ?_, fun typed => ?_⟩, fun p _ hcall hs => ?_,
    fun p _ hn => ?_, fun t ht line hl ha => ?_, fun e _ o ho hcall hs => ?_, fun p hp => ?_⟩
  · rw [mem_defaultProps]
    constructor
    · rintro ⟨⟨hd, _, hv⟩, hn⟩
      have heq : d.1 = p := hc.eq_of_name_eq hd hp hn
      exact Prod.ext heq (heq ▸ hv)
    · rintro rfl
      exact ⟨⟨hp, by rw [hcall, Bool.or_true], rfl⟩, rfl⟩
  · exact line_mem_layout s pass typed (d := (p, Mock.value s.framework p))
      (mem_defaultProps.mpr ⟨hp, by rw [hcall, Bool.or_true], rfl⟩)
  · exact Mock.value_of_callback hcall hs
  · unfold Mock.value
    rw [if_pos hn]
  · obtain ⟨e, he, name, hname, rfl⟩ :=
      (isStatement_of_mem (isCase_of_mem ht) hl).of_assertsDefault ha
    obtain ⟨p, hp, rfl, hcall⟩ := hc.handler e he name hname
    exact ⟨p, hp, hcall, rfl⟩
  · obtain ⟨hp, hv, _⟩ := mem_overrides ho
    rw [hv]
    exact Mock.forced_of_callback (hboolean _ hp) hcall hs _
  · obtain ⟨hp, hb⟩ := List.mem_filter.mp hp
    refine Mock.isSettled_of_isBooleanLike (hboolean p hp) ?_
    rw [Mock.isBooleanLike, hb, Bool.true_or]

/-- The components of a source of one file. -/
def sourceComponents (text : String) : List Component :=
  ((Source.ofText ⟨"A.tsx"⟩ text).toOption.map (Analysis.components .none)).getD []

theorem mem_sourceComponents {text : String} {c : Component} (h : c ∈ sourceComponents text) :
    ∃ src, (Source.ofText ⟨"A.tsx"⟩ text).toOption = some src ∧
      c ∈ Analysis.components .none src := by
  unfold sourceComponents at h
  cases hsrc : (Source.ofText ⟨"A.tsx"⟩ text).toOption with
  | none => rw [hsrc] at h; cases h
  | some src => rw [hsrc] at h; exact ⟨src, rfl, h⟩

/-- A button whose handler is a callback. -/
def pressed : List Component :=
  sourceComponents "export const A=({onClick}:{onClick:()=>void})=><button onClick={onClick}/>"

/-- A function as the children, and a gate that is a callback. -/
def gated : List Component :=
  sourceComponents
    "export const A=({children,off}:{children:()=>void,off:()=>void})=>off?null:<p>{children()}</p>"

/-- The settings of a project that sets its framework only. -/
def plain (f : Framework) : Settings := { Config.Generation.empty with framework := f }.suiteSettings

theorem tracksCallbacks_pressed :
    ∃ c ∈ pressed, TracksCallbacks (plain .vitest) .enriched c ∧
      defaultProps .vitest c = c.props.map (fun p => (p, "vi.fn()")) ∧
      ∃ t ∈ testCases (plain .vitest) .enriched c, expectCalled "onClick" ∈ t.body := by
  have h : ∃ c ∈ pressed, defaultProps .vitest c = c.props.map (fun p => (p, "vi.fn()")) ∧
      ∃ t ∈ testCases (plain .vitest) .enriched c, expectCalled "onClick" ∈ t.body := by
    decide +kernel
  obtain ⟨c, hc, hdefaults, hasserted⟩ := h
  obtain ⟨src, _, hmem⟩ := mem_sourceComponents hc
  exact ⟨c, hc, tracksCallbacks hmem (plain .vitest) .enriched, hdefaults, hasserted⟩

/-- Callbacks that no stub is passed for: the children of a list, and a gate that is shut. -/
theorem untracked_callbacks :
    ∃ c ∈ gated, (∃ p ∈ c.props, p.isCallback = true ∧
        (p, "<div>Test content</div>") ∈ defaultProps .jest c) ∧
      ∃ e ∈ c.conditional, ∃ o ∈ overrides .jest c e,
        o.prop.isCallback = true ∧ o.value = "undefined" := by
  decide +kernel

end Suite

end Trellis
