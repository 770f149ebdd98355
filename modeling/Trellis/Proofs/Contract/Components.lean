import Mathlib.Data.List.Nodup
import Trellis.Contract.Analysis

/-! # Components that come out of an analysis

What holds of every component that an analysis gives, and of no component in general.

* `PropMembers.nodup_update`: a prop that is mentioned again is no new prop, so no two props of a
  candidate share a name (`Candidate.nodup_props`).
* `Component.IsAnalyzed` says this, that every prop is what its mentions tell together, and that the
  handlers of an element are callback props. `Analysis.isAnalyzed`: it holds of every component of a
  source. -/

namespace Trellis

/-! ### Names of props -/

namespace PropMembers

theorem map_name_update {name : String} {change : PropMember → PropMember} {added : PropMember}
    (hc : ∀ m, (change m).name = m.name) (ms : List PropMember) :
    (update name change added ms).map (·.name) =
      if name ∈ ms.map (·.name) then ms.map (·.name) else ms.map (·.name) ++ [added.name] := by
  induction ms with
  | nil => simp [update]
  | cons m ms ih =>
      by_cases h : m.name = name
      · simp [update, h, hc]
      · have h' : ¬ name = m.name := fun e => h e.symm
        by_cases hmem : name ∈ ms.map (·.name)
        · simp only [update, if_neg h, List.map_cons, ih, if_pos hmem, List.mem_cons, h', false_or]
        · simp only [update, if_neg h, List.map_cons, ih, if_neg hmem, List.mem_cons, h', false_or,
            List.cons_append]

/-- A mention of a prop keeps the names distinct. -/
theorem nodup_update {name : String} {change : PropMember → PropMember} {added : PropMember}
    (hc : ∀ m, (change m).name = m.name) (ha : added.name = name) {ms : List PropMember}
    (h : (ms.map (·.name)).Nodup) : ((update name change added ms).map (·.name)).Nodup := by
  rw [map_name_update hc]
  split
  · exact h
  · rename_i hmem
    rw [ha]
    exact List.Nodup.append h (List.nodup_singleton _) (by simpa using hmem)

end PropMembers

theorem PropMember.combine_name (old new : PropMember) : (old.combine new).name = old.name := by
  unfold combine
  split <;> rfl

theorem Mention.nodup_apply {ms : List PropMember} (h : (ms.map (·.name)).Nodup) (m : Mention) :
    ((apply ms m).map (·.name)).Nodup := by
  cases m with
  | typed m => exact PropMembers.nodup_update (fun old => old.combine_name m) rfl h
  | seen name hasDefault =>
      refine PropMembers.nodup_update ?_ ?_ h
      · intro m
        rfl
      · rfl

theorem Mention.nodup_foldl (mentions : List Mention) {ms : List PropMember}
    (h : (ms.map (·.name)).Nodup) : ((mentions.foldl apply ms).map (·.name)).Nodup := by
  induction mentions generalizing ms with
  | nil => exact h
  | cons m mentions ih => exact ih (nodup_apply h m)

namespace Candidate

/-- No two props of a candidate share a name. -/
theorem nodup_props (c : Candidate) (modules : Modules) (s : Source) :
    ((c.props modules s).map (·.name)).Nodup := by
  have hnil : (([] : List PropMember).map (·.name)).Nodup := List.nodup_nil
  have h := Mention.nodup_foldl (c.mentions modules s) hnil
  have hname : (fun p : ComponentProp => p.name) ∘ PropMember.finish = (·.name) := rfl
  rw [props, List.map_map, hname]
  exact h

end Candidate

/-! ### Handlers -/

theorem Markup.mem_of_mem_distinct {s : String} {ss : List String} (h : s ∈ distinct ss) :
    s ∈ ss := by
  induction ss with
  | nil => exact h
  | cons t ss ih =>
      rcases List.mem_cons.mp h with rfl | h
      · exact List.mem_cons_self
      · exact List.mem_cons_of_mem _ (ih (List.mem_filter.mp h).1)

/-- A handler of a tag is a callback prop. -/
theorem Markup.exists_of_mem_handlers {props : List ComponentProp} {tag : Tree} {name : String}
    (h : name ∈ handlers props tag) : ∃ p ∈ props, p.name = name ∧ p.isCallback = true := by
  have hf := (List.mem_filter.mp (mem_of_mem_distinct h)).2
  obtain ⟨p, hp, hname⟩ := List.any_eq_true.mp hf
  simp only [Bool.and_eq_true, decide_eq_true_eq] at hname
  exact ⟨p, hp, hname⟩

theorem Markup.Scan.handlerProps_of_always {props : List ComponentProp} {v : Visit}
    {e : InteractiveElement} (h : ofVisit? props v = some (.always e)) :
    ∃ tag, e.handlerProps = handlers props tag := by
  unfold ofVisit? at h
  obtain ⟨tag, _, h⟩ := Option.bind_eq_some_iff.mp h
  obtain ⟨name, _, h⟩ := Option.bind_eq_some_iff.mp h
  dsimp only at h
  split at h
  · split at h <;> cases h
  · split at h
    · cases h
      exact ⟨tag, rfl⟩
    · cases h

/-! ### Analyzed components -/

/-- What holds of a component that comes out of an analysis. -/
structure Component.IsAnalyzed (c : Component) : Prop where
  /-- No two props share a name. -/
  nodup : (c.props.map (·.name)).Nodup
  /-- Every prop is what its mentions tell together. -/
  finished : ∀ p ∈ c.props, ∃ m : PropMember, m.finish = p
  /-- The handlers of an element are callback props. -/
  handler : ∀ e ∈ c.interactive, ∀ name ∈ e.handlerProps,
    ∃ p ∈ c.props, p.name = name ∧ p.isCallback = true

theorem Candidate.props_of_component? {cand : Candidate} {kind : ExportKind} {exported : String}
    {props : List ComponentProp} {c : Component}
    (h : cand.component? kind exported props = some c) : c.props = props := by
  unfold component? at h
  split at h
  · cases h
  · cases h
    rfl

theorem Candidate.name_of_component? {cand : Candidate} {kind : ExportKind} {exported : String}
    {props : List ComponentProp} {c : Component}
    (h : cand.component? kind exported props = some c) : c.name = cand.name := by
  unfold component? at h
  split at h
  · cases h
  · cases h
    rfl

theorem Candidate.export_of_component? {cand : Candidate} {kind : ExportKind} {exported : String}
    {props : List ComponentProp} {c : Component}
    (h : cand.component? kind exported props = some c) :
    c.exportKind = kind ∧ c.exportedAs = exported := by
  unfold component? at h
  split at h
  · cases h
  · cases h
    exact ⟨rfl, rfl⟩

theorem Candidate.isComponentName_of_mem_ofDeclaration {t : Tree} {cand : Candidate}
    (h : cand ∈ ofDeclaration t) : isComponentName cand.name = true := by
  unfold ofDeclaration at h
  split at h
  · rw [Option.mem_toList, ofFunction?] at h
    obtain ⟨n, _, h⟩ := Option.bind_eq_some_iff.mp h
    dsimp only at h
    split at h
    · rename_i hname
      cases h
      exact hname
    · cases h
  · split at h
    · obtain ⟨d, _, h⟩ := List.mem_filterMap.mp h
      obtain ⟨n, _, h⟩ := Option.bind_eq_some_iff.mp h
      obtain ⟨v, _, h⟩ := Option.bind_eq_some_iff.mp h
      split at h
      · rename_i hname
        cases h
        exact (Bool.and_eq_true_iff.mp hname).2
      · cases h
    · cases h

/-- The name of a component begins with a capital letter. -/
theorem Analysis.isComponentName_of_mem {modules : Modules} {s : Source} {c : Component}
    (h : c ∈ components modules s) : Candidate.isComponentName c.name = true := by
  obtain ⟨⟨cand, kind, exported⟩, hcand, hc⟩ := List.mem_filterMap.mp h
  obtain ⟨cand', hsource, hlookup⟩ := List.mem_filterMap.mp hcand
  obtain ⟨e, _, heq⟩ := Option.map_eq_some_iff.mp hlookup
  cases heq
  rw [Candidate.name_of_component? hc]
  obtain ⟨t, _, hdeclared⟩ := List.mem_flatMap.mp hsource
  cases hd : Candidate.declarationOf? t with
  | none => rw [hd] at hdeclared; cases hdeclared
  | some d =>
      rw [hd] at hdeclared
      exact Candidate.isComponentName_of_mem_ofDeclaration hdeclared

/-- An interactive element of a component is one of its elements, always rendered. -/
theorem Candidate.exists_visit_of_component? {cand : Candidate} {kind : ExportKind}
    {exported : String} {props : List ComponentProp} {c : Component}
    (h : cand.component? kind exported props = some c) {e : InteractiveElement}
    (he : e ∈ c.interactive) : ∃ v, Markup.Scan.ofVisit? props v = some (.always e) := by
  unfold component? at h
  split at h
  · cases h
  · cases h
    obtain ⟨scan, hscan, he⟩ := List.mem_filterMap.mp he
    obtain ⟨v, _, hv⟩ := List.mem_filterMap.mp hscan
    cases scan with
    | always x =>
        cases he
        exact ⟨v, hv⟩
    | gated x => cases he

/-- Every component of a source is analyzed. -/
theorem Analysis.isAnalyzed {modules : Modules} {s : Source} {c : Component}
    (h : c ∈ components modules s) : c.IsAnalyzed := by
  obtain ⟨⟨cand, kind, exported⟩, _, hc⟩ := List.mem_filterMap.mp h
  have hprops := Candidate.props_of_component? hc
  refine ⟨?_, fun p hp => ?_, fun e he name hname => ?_⟩
  · rw [hprops]
    exact cand.nodup_props modules s
  · rw [hprops] at hp
    obtain ⟨m, _, hm⟩ := List.mem_map.mp hp
    exact ⟨m, hm⟩
  · obtain ⟨v, hv⟩ := Candidate.exists_visit_of_component? hc he
    obtain ⟨tag, htag⟩ := Markup.Scan.handlerProps_of_always hv
    rw [htag] at hname
    rw [hprops]
    exact Markup.exists_of_mem_handlers hname

namespace Component.IsAnalyzed

variable {c : Component}

/-- A prop is known by its name. -/
theorem eq_of_name_eq (h : c.IsAnalyzed) {p q : ComponentProp} (hp : p ∈ c.props)
    (hq : q ∈ c.props) (hn : p.name = q.name) : p = q :=
  List.inj_on_of_nodup_map h.nodup hp hq hn

/-- A prop counts as boolean only if that is its type. -/
theorem type_of_isBoolean (h : c.IsAnalyzed) {p : ComponentProp} (hp : p ∈ c.props)
    (hb : p.isBoolean = true) : p.type = "boolean" := by
  obtain ⟨m, rfl⟩ := h.finished p hp
  simpa [PropMember.finish] using hb

/-- A prop is called back if its type is a function's, or tells nothing of a value while its name
sounds like a handler. -/
theorem isCallback_of (h : c.IsAnalyzed) {p : ComponentProp} (hp : p ∈ c.props)
    (hc : (TypeShape.classify p.type).isCallback = true ∨
      ((TypeShape.classify p.type).isValue = false ∧ PropName.isHandler p.name = true)) :
    p.isCallback = true := by
  obtain ⟨m, rfl⟩ := h.finished p hp
  simp only [PropMember.finish] at hc ⊢
  rcases hc with hc | ⟨hv, hn⟩
  · simp [hc]
  · simp [hv, hn]

end Component.IsAnalyzed

end Trellis
