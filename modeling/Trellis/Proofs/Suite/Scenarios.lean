import Trellis.Proofs.Suite.Cases

/-! # Which tests a component has

The tests of a component in their order, for each pass.

* `Suite.FirstOfSelector` says what it is to keep one element per distinct selector: the first, in
  source order. `Suite.firstOfSelector_distinct`: that is how elements are kept.
* `Suite.IsScenarios` says what the groups of tests are that are not the same for every component.
* `Suite.exists_scenarios`: the tests of the minimal pass are those of the enriched pass without the
  groups in the middle. -/

namespace Trellis

namespace Suite

/-! ### One element per selector -/

/-- Whether some elements are the first of each distinct selector among others, in their order. -/
structure FirstOfSelector (es firsts : List InteractiveElement) : Prop where
  /-- The order is kept. -/
  sublist : firsts.Sublist es
  /-- No selector is kept twice. -/
  nodup : (firsts.map (·.selector)).Nodup
  /-- Every selector is kept. -/
  covers : ∀ e ∈ es, e.selector ∈ firsts.map (·.selector)
  /-- What is kept is the first of its selector. -/
  first : ∀ e ∈ firsts, es.find? (·.selector = e.selector) = some e

section distinct
variable {seen : List Selector} {es : List InteractiveElement} {e : InteractiveElement}

theorem sublist_distinct (seen : List Selector) (es : List InteractiveElement) :
    (distinctSelectors seen es).Sublist es := by
  induction es generalizing seen with
  | nil => exact .slnil
  | cons x es ih =>
      rw [distinctSelectors]
      split
      · exact (ih seen).cons x
      · exact (ih _).cons_cons x

/-- What was seen is not kept. -/
theorem selector_notMem_of_mem_distinct (h : e ∈ distinctSelectors seen es) :
    e.selector ∉ seen := by
  induction es generalizing seen with
  | nil => cases h
  | cons x es ih =>
      rw [distinctSelectors] at h
      split at h
      · exact ih h
      · rename_i hnew
        rcases List.mem_cons.mp h with rfl | h
        · simpa using hnew
        · exact fun hseen => ih h (List.mem_cons_of_mem _ hseen)

theorem nodup_distinct (seen : List Selector) (es : List InteractiveElement) :
    ((distinctSelectors seen es).map (·.selector)).Nodup := by
  induction es generalizing seen with
  | nil => exact List.nodup_nil
  | cons x es ih =>
      rw [distinctSelectors]
      split
      · exact ih seen
      · rw [List.map_cons, List.nodup_cons]
        refine ⟨fun hmem => ?_, ih _⟩
        obtain ⟨e, he, heq⟩ := List.mem_map.mp hmem
        exact selector_notMem_of_mem_distinct he (heq ▸ List.mem_cons_self)

/-- A selector is kept unless it was seen. -/
theorem selector_mem_distinct (he : e ∈ es) (hnew : e.selector ∉ seen) :
    e.selector ∈ (distinctSelectors seen es).map (·.selector) := by
  induction es generalizing seen with
  | nil => cases he
  | cons x es ih =>
      rw [distinctSelectors]
      rcases List.mem_cons.mp he with rfl | he
      · rw [if_neg (by simpa using hnew)]
        exact List.mem_cons_self
      · split
        · exact ih he hnew
        · rw [List.map_cons, List.mem_cons, or_iff_not_imp_left]
          intro hx
          exact ih he fun hmem => (List.mem_cons.mp hmem).elim hx hnew

/-- What is kept is the first of its selector. -/
theorem find?_of_mem_distinct (h : e ∈ distinctSelectors seen es) :
    es.find? (·.selector = e.selector) = some e := by
  induction es generalizing seen with
  | nil => cases h
  | cons x es ih =>
      have hne (h : e ∈ distinctSelectors (x.selector :: seen) es) : x.selector ≠ e.selector :=
        fun heq => selector_notMem_of_mem_distinct h (heq ▸ List.mem_cons_self)
      rw [distinctSelectors] at h
      split at h
      · rename_i hseen
        have hx : x.selector ≠ e.selector := fun heq =>
          selector_notMem_of_mem_distinct h (heq ▸ List.contains_iff_mem.mp hseen)
        rw [List.find?_cons_of_neg (by simpa using hx)]
        exact ih h
      · rcases List.mem_cons.mp h with rfl | h
        · exact List.find?_cons_of_pos (by simp)
        · rw [List.find?_cons_of_neg (by simpa using hne h)]
          exact ih h

/-- The elements that are kept are the first of each distinct selector. -/
theorem firstOfSelector_distinct (es : List InteractiveElement) :
    FirstOfSelector es (distinctSelectors [] es) where
  sublist := sublist_distinct [] es
  nodup := nodup_distinct [] es
  covers _ he := selector_mem_distinct he List.not_mem_nil
  first _ h := find?_of_mem_distinct h

end distinct

/-! ### Groups of tests -/

/-- Whether some name among the gating props of an element is that of a prop. -/
def IsResolvable (c : Component) (e : ConditionalElement) : Prop :=
  ∃ name ∈ e.requiredProps ++ e.falsyProps, ∃ p ∈ c.props, p.name = name

instance (c : Component) : DecidablePred (IsResolvable c) :=
  fun e => inferInstanceAs
    (Decidable (∃ name ∈ e.requiredProps ++ e.falsyProps, ∃ p ∈ c.props, p.name = name))

/-- What the groups of tests are that are not the same for every component. -/
structure IsScenarios (s : Settings) (c : Component)
    (presence conditional variants interactions : List TestCase) : Prop where
  /-- One test per distinct selector among the first buttons, followed by the first inputs. -/
  presence_eq : ∃ shown,
    FirstOfSelector (c.buttons.take s.maxButtons ++ c.inputs.take s.maxInputs) shown ∧
      presence = shown.map (presenceCase c)
  /-- One test per conditional element with a gating prop that the component has. -/
  conditional_eq : conditional = (c.conditional.filter fun e => IsResolvable c e).map fun e =>
    conditionalCase c e (overrides s.framework c e)
  /-- One test per boolean prop, if boolean props get tests. -/
  variants_eq : variants = if s.variants then c.booleanProps.map (variantCase c) else []
  /-- One test per distinct selector among the enabled elements whose first is a button or an
  input. -/
  interactions_eq : ∃ acted, FirstOfSelector (c.interactive.filter (! ·.disabled)) acted ∧
    List.Forall₂ (fun e t => interactionCase? c e = some t)
      (acted.filter (·.kind.isInteractive)) interactions
  /-- One test per distinct selector among the enabled buttons and inputs, if there are no other
  elements. -/
  interactions_eq_of_isInteractive : (∀ e ∈ c.interactive, e.kind.isInteractive = true) →
    ∃ acted,
      FirstOfSelector (c.interactive.filter fun e => !e.disabled && e.kind.isInteractive) acted ∧
        List.Forall₂ (fun e t => interactionCase? c e = some t) acted interactions

section groups
variable {s : Settings} {c : Component} {e : ConditionalElement}

/-- Some name gives an override exactly if it is that of a prop. -/
theorem forcedProps_ne_nil_iff {f : Framework} {truthy : Bool} {names : List String} :
    forcedProps f c truthy names ≠ [] ↔ ∃ name ∈ names, ∃ p ∈ c.props, p.name = name := by
  simp [forcedProps, Component.prop?]

theorem overrides_ne_nil_iff {f : Framework} : overrides f c e ≠ [] ↔ IsResolvable c e := by
  rw [overrides, ne_eq, List.append_eq_nil_iff, not_and_or, ← ne_eq, ← ne_eq,
    forcedProps_ne_nil_iff, forcedProps_ne_nil_iff, IsResolvable]
  constructor
  · rintro (⟨name, hname, h⟩ | ⟨name, hname, h⟩)
    · exact ⟨name, List.mem_append_left _ hname, h⟩
    · exact ⟨name, List.mem_append_right _ hname, h⟩
  · rintro ⟨name, hname, h⟩
    exact (List.mem_append.mp hname).imp (⟨name, ·, h⟩) (⟨name, ·, h⟩)

theorem conditionalCases_eq (f : Framework) (c : Component) : conditionalCases f c =
    (c.conditional.filter fun e => IsResolvable c e).map fun e =>
      conditionalCase c e (overrides f c e) := by
  have hcase (e : ConditionalElement) : conditionalCase? f c e =
      if IsResolvable c e then some (conditionalCase c e (overrides f c e)) else none := by
    unfold conditionalCase?
    simp only [List.isEmpty_iff, ← overrides_ne_nil_iff (f := f), ite_not]
  unfold conditionalCases
  induction c.conditional with
  | nil => rfl
  | cons e es ih =>
      rw [List.filterMap_cons, hcase, List.filter_cons, ih]
      by_cases he : IsResolvable c e
      · simp [he]
      · simp [he]

/-- An element has an interaction test exactly if it is a button or an input. -/
theorem exists_interactionCase (x : InteractiveElement) :
    (∃ t, interactionCase? c x = some t) ∧ x.kind.isInteractive = true ∨
      interactionCase? c x = none ∧ x.kind.isInteractive = false := by
  unfold interactionCase?
  cases x.kind with
  | button => exact .inl ⟨⟨_, rfl⟩, rfl⟩
  | input kind => exact .inl ⟨⟨_, rfl⟩, rfl⟩
  | other role => exact .inr ⟨rfl, rfl⟩

theorem forall₂_interactionCase (es : List InteractiveElement) :
    List.Forall₂ (fun e t => interactionCase? c e = some t)
      (es.filter (·.kind.isInteractive)) (es.filterMap (interactionCase? c)) := by
  induction es with
  | nil => exact .nil
  | cons x es ih =>
      rcases exists_interactionCase (c := c) x with ⟨⟨t, ht⟩, hkind⟩ | ⟨ht, hkind⟩
      · rw [List.filter_cons_of_pos (by exact hkind), List.filterMap_cons_some ht]
        exact .cons ht ih
      · rw [List.filter_cons_of_neg (by simp [hkind]), List.filterMap_cons_none ht]
        exact ih

theorem isScenarios (s : Settings) (c : Component) :
    IsScenarios s c (presenceCases s.maxButtons s.maxInputs c) (conditionalCases s.framework c)
      (if s.variants then variantCases c else []) (interactionCases c) where
  presence_eq := ⟨_, firstOfSelector_distinct _, rfl⟩
  conditional_eq := conditionalCases_eq s.framework c
  variants_eq := rfl
  interactions_eq := ⟨_, firstOfSelector_distinct _, forall₂_interactionCase _⟩
  interactions_eq_of_isInteractive h := by
    have hsame : (c.interactive.filter fun e => !e.disabled && e.kind.isInteractive) =
        c.interactive.filter (! ·.disabled) :=
      List.filter_congr fun e he => by rw [h e he, Bool.and_true]
    have hall : (distinctSelectors [] (c.interactive.filter (! ·.disabled))).filter
        (·.kind.isInteractive) = distinctSelectors [] (c.interactive.filter (! ·.disabled)) :=
      List.filter_eq_self.mpr fun e he =>
        h e (List.mem_filter.mp (mem_of_mem_distinctSelectors he)).1
    have hforall := forall₂_interactionCase (c := c)
      (distinctSelectors [] (c.interactive.filter (! ·.disabled)))
    rw [hall] at hforall
    exact ⟨_, hsame ▸ firstOfSelector_distinct _, hforall⟩

/-- The tests of a component in their order. The tests of the minimal pass are those of the enriched
pass without the groups in the middle. -/
theorem exists_scenarios (s : Settings) (c : Component) :
    ∃ presence conditional variants interactions,
      IsScenarios s c presence conditional variants interactions ∧
      testCases s .minimal c =
        [crashCase c, defaultsCase c] ++ presence ++ [snapshotCase c] ∧
      testCases s .enriched c =
        [crashCase c, defaultsCase c] ++ presence ++ (conditional ++ variants ++ interactions) ++
          [snapshotCase c] := by
  refine ⟨_, _, _, _, isScenarios s c, ?_, rfl⟩
  rw [testCases, List.append_nil]

end groups

end Suite

/-! ### Analyzed components -/

theorem Markup.Scan.isInteractive_of_always {props : List ComponentProp} {v : Visit}
    {e : InteractiveElement} (h : ofVisit? props v = some (.always e)) :
    e.kind.isInteractive = true := by
  unfold ofVisit? at h
  obtain ⟨tag, _, h⟩ := Option.bind_eq_some_iff.mp h
  obtain ⟨name, _, h⟩ := Option.bind_eq_some_iff.mp h
  dsimp only at h
  split at h
  · split at h <;> cases h
  · split at h
    · rename_i hkind
      cases h
      exact hkind
    · cases h

/-- The interactive elements of a component that comes out of an analysis are buttons and inputs. -/
theorem Analysis.isInteractive_of_mem {modules : Modules} {s : Source} {c : Component}
    (h : c ∈ components modules s) : ∀ e ∈ c.interactive, e.kind.isInteractive = true := by
  obtain ⟨_, _, hc⟩ := List.mem_filterMap.mp h
  intro e he
  obtain ⟨v, hv⟩ := Candidate.exists_visit_of_component? hc he
  exact Markup.Scan.isInteractive_of_always hv

end Trellis
