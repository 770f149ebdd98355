import Trellis.Proofs.Contract.Polarity
import Trellis.Proofs.Suite.Entries
import Trellis.Proofs.Suite.Scenarios

/-! # Tests of gated elements

What the enriched tests do with the elements that are rendered under a condition on the props.

* `Suite.forall₂_overrides`: where the gating props of an element are declared, its overrides are just
  these props, each forced to the truth value that the gate asks for.
* `Suite.OpensGate` says that a test renders an element by an object that assigns every gating prop
  once, and nothing else.
* `Suite.CoversGated` says what this means for a component; `Suite.coversGated` that it holds of every
  component of a source. -/

namespace Trellis

namespace Suite

/-! ### Overrides -/

section overrides
variable {f : Framework} {c : Component} {truthy : Bool}

/-- Whether an override forces a prop of a component to a truth value. -/
def ForcesProp (f : Framework) (c : Component) (d : String × Bool) (o : Override) : Prop :=
  o.prop ∈ c.props ∧ o.prop.name = d.1 ∧ o.value = Mock.forced f o.prop d.2

/-- Of declared props none is left out. -/
theorem forall₂_forcedProps {names : List String} (h : ∀ n ∈ names, n ∈ c.props.map (·.name)) :
    List.Forall₂ (ForcesProp f c) (names.map (·, truthy)) (forcedProps f c truthy names) := by
  induction names with
  | nil => exact .nil
  | cons n names ih =>
      rw [List.forall_mem_cons] at h
      obtain ⟨p, hp, hn⟩ := List.mem_map.mp h.1
      obtain ⟨q, hq⟩ : ∃ q, c.prop? n = some q :=
        Option.isSome_iff_exists.mp (List.find?_isSome.mpr ⟨p, hp, decide_eq_true hn⟩)
      have hforced : forcedProps f c truthy (n :: names) =
          ⟨q, Mock.forced f q truthy, truthy⟩ :: forcedProps f c truthy names := by
        rw [forcedProps, List.filterMap_cons_some (by rw [hq]; rfl), ← forcedProps]
      have hname : q.name = n := by simpa using List.find?_some hq
      rw [hforced, List.map_cons]
      exact .cons ⟨List.mem_of_find?_eq_some hq, hname, rfl⟩ (ih h.2)

/-- The gating props of an element, each with the truth value that the gate asks for. -/
def gatingProps (e : ConditionalElement) : List (String × Bool) :=
  e.requiredProps.map (·, true) ++ e.falsyProps.map (·, false)

/-- The overrides of an element force just its gating props. -/
theorem forall₂_overrides (f : Framework) {c : Component} {e : ConditionalElement}
    (h : e.IsGatedBy (c.props.map (·.name))) :
    List.Forall₂ (ForcesProp f c) (gatingProps e) (overrides f c e) :=
  List.rel_append
    (forall₂_forcedProps fun n hn => h.declared n (List.mem_append_left _ hn))
    (forall₂_forcedProps fun n hn => h.declared n (List.mem_append_right _ hn))

end overrides

/-! ### Tests -/

/-- Whether a test renders a gated element by an object that forces its gating props: the object has
one entry for each of them, and no other. -/
def OpensGate (f : Framework) (c : Component) (e : ConditionalElement) (t : TestCase) : Prop :=
  ∃ entries : List String,
    t.body = [renderHelper c ++ "(\x7b " ++ String.intercalate ", " entries ++ " \x7d);",
      expectPresent e.selector.query] ∧
    List.Forall₂ (fun d entry => ∃ p ∈ c.props, p.name = d.1 ∧
      readPair? entry = some (d.1, Mock.forced f p d.2)) (gatingProps e) entries

theorem opensGate_conditionalCase (f : Framework) {c : Component} {e : ConditionalElement}
    (h : e.IsGatedBy (c.props.map (·.name))) :
    OpensGate f c e (conditionalCase c e (overrides f c e)) := by
  refine ⟨(overrides f c e).map Override.entry, rfl, List.forall₂_map_right_iff.mpr ?_⟩
  refine (forall₂_overrides f h).imp fun d o ⟨hp, hn, hv⟩ => ⟨o.prop, hp, hn, ?_⟩
  rw [Override.entry, readPair?_entry, hn, hv]

/-- An element with a declared gating prop has a test. -/
theorem isResolvable_of_isGatedBy {c : Component} {e : ConditionalElement}
    (h : e.IsGatedBy (c.props.map (·.name))) : IsResolvable c e := by
  obtain ⟨n, hn⟩ := List.exists_mem_of_ne_nil _ h.ne_nil
  exact ⟨n, hn, List.mem_map.mp (h.declared n hn)⟩

section cases
variable {s : Settings} {c : Component}

theorem scenario_of_mem_presence {t : TestCase}
    (h : t ∈ presenceCases s.maxButtons s.maxInputs c) : t.scenario = .presence := by
  obtain ⟨e, _, rfl⟩ := List.mem_map.mp h
  rfl

theorem scenario_of_mem_conditional {f : Framework} {t : TestCase}
    (h : t ∈ conditionalCases f c) : t.scenario = .conditional := by
  rw [conditionalCases_eq] at h
  obtain ⟨e, _, rfl⟩ := List.mem_map.mp h
  rfl

theorem scenario_of_mem_variants {b : Bool} {t : TestCase}
    (h : t ∈ if b then variantCases c else []) : t.scenario = .variant := by
  split at h
  · obtain ⟨p, _, rfl⟩ := List.mem_map.mp h
    rfl
  · cases h

theorem scenario_of_mem_interaction {t : TestCase} (h : t ∈ interactionCases c) :
    t.scenario = .interaction := by
  obtain ⟨e, _, ht⟩ := List.mem_filterMap.mp h
  unfold interactionCase? at ht
  split at ht
  · cases ht
    exact scenario_clickCase c e
  · cases ht
    rfl
  · cases ht

/-- Tests of another scenario are no conditional tests. -/
theorem filter_conditional_eq_nil {x : Scenario} {ts : List TestCase}
    (h : ∀ t ∈ ts, t.scenario = x) (hx : x ≠ .conditional) :
    ts.filter (·.scenario = .conditional) = [] :=
  List.filter_eq_nil_iff.mpr fun t ht => by simpa [h t ht] using hx

/-- The conditional tests of a component are among the enriched ones just as they are. -/
theorem filter_conditional (s : Settings) (c : Component) :
    (testCases s .enriched c).filter (·.scenario = .conditional) =
      conditionalCases s.framework c := by
  have hconditional : (conditionalCases s.framework c).filter (·.scenario = .conditional) =
      conditionalCases s.framework c :=
    List.filter_eq_self.mpr fun t ht => decide_eq_true (scenario_of_mem_conditional ht)
  have hfirst : [crashCase c, defaultsCase c].filter (·.scenario = .conditional) = [] := rfl
  have hlast : [snapshotCase c].filter (·.scenario = .conditional) = [] := rfl
  rw [testCases, enrichedCases]
  simp only [List.filter_append, hconditional, hfirst, hlast, List.nil_append, List.append_nil,
    filter_conditional_eq_nil (fun _ => scenario_of_mem_presence (s := s) (c := c))
      Scenario.noConfusion,
    filter_conditional_eq_nil (fun _ => scenario_of_mem_variants (b := s.variants) (c := c))
      Scenario.noConfusion,
    filter_conditional_eq_nil (fun _ => scenario_of_mem_interaction (c := c)) Scenario.noConfusion]

/-- Where every gate is one of declared props, every gated element has one test. -/
theorem conditionalCases_eq_map (f : Framework) {c : Component}
    (h : ∀ e ∈ c.conditional, e.IsGatedBy (c.props.map (·.name))) :
    conditionalCases f c = c.conditional.map fun e => conditionalCase c e (overrides f c e) := by
  rw [conditionalCases_eq, List.filter_eq_self.mpr fun e he =>
    decide_eq_true (isResolvable_of_isGatedBy (h e he))]

end cases

/-! ### Components -/

/-- What the tests of a component do with its gated elements. -/
structure CoversGated (s : Settings) (c : Component) : Prop where
  /-- Some declared props gate an element, none of them twice and none with both truth values. -/
  gated : ∀ e ∈ c.conditional, e.IsGatedBy (c.props.map (·.name))
  /-- The enriched tests have one test for each gated element, in their order, and the test opens the
  gate. -/
  enriched : List.Forall₂ (OpensGate s.framework c) c.conditional
    ((testCases s .enriched c).filter (·.scenario = .conditional))
  /-- The minimal tests have none. -/
  minimal : ∀ t ∈ testCases s .minimal c, t.scenario ≠ .conditional

/-- The tests of every component of a source cover its gated elements. -/
theorem coversGated {modules : Modules} {src : Source} {c : Component}
    (h : c ∈ Analysis.components modules src) (s : Settings) : CoversGated s c where
  gated e he := Analysis.isGatedBy h he
  enriched := by
    rw [filter_conditional, conditionalCases_eq_map s.framework fun e he => Analysis.isGatedBy h he,
      List.forall₂_map_right_iff, List.forall₂_same]
    exact fun e he => opensGate_conditionalCase s.framework (Analysis.isGatedBy h he)
  minimal t ht := by
    rcases List.mem_append.mp ht with ht | ht
    · rcases List.mem_append.mp (List.append_nil _ ▸ ht) with ht | ht
      · rcases List.mem_cons.mp ht with rfl | ht
        · exact Scenario.noConfusion
        · rw [List.mem_singleton.mp ht]
          exact Scenario.noConfusion
      · rw [scenario_of_mem_presence ht]
        exact Scenario.noConfusion
    · rw [List.mem_singleton.mp ht]
      exact Scenario.noConfusion

/-- A button under two conditions, of which one mentions the same prop plainly and negated. -/
def shuttered : List Component :=
  sourceComponents
    "export const A=(\x7bon,off\x7d:\x7bon:boolean,off?:string\x7d)=>off?null:(on||!on)&&<button/>"

theorem coversGated_shuttered :
    ∃ c ∈ shuttered, CoversGated (plain .jest) c ∧
      c.conditional.map gatingProps = [[("on", true), ("off", false)]] ∧
      ∃ t ∈ testCases (plain .jest) .enriched c,
        "renderA(\x7b on: true, off: undefined \x7d);" ∈ t.body := by
  have h : ∃ c ∈ shuttered, c.conditional.map gatingProps = [[("on", true), ("off", false)]] ∧
      ∃ t ∈ testCases (plain .jest) .enriched c,
        "renderA(\x7b on: true, off: undefined \x7d);" ∈ t.body := by
    decide +kernel
  obtain ⟨c, hc, hgates, hbody⟩ := h
  obtain ⟨src, _, hmem⟩ := mem_sourceComponents hc
  exact ⟨c, hc, coversGated hmem (plain .jest), hgates, hbody⟩

end Suite

end Trellis
