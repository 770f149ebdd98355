import Trellis.Proofs.Contract.Parameter

/-! # Components with another parameter

What the components of two sources have in common that differ in the names of the variables in which
functions take the props.

* `Candidate.Renames.uses_eq` and `Candidate.props_renames`: they have the same props.
* `Component.bare` is a component without its elements, `Component.plain` one with its elements, but
  for tags that are members of a variable. `Analysis.Counterparts` says that two components are bare
  the same, and plain the same if the names tell nothing; without such tags they are then equal.
* `Analysis.exported_renames`: this holds of all components of such sources. A name tells something:
  `Analysis.renamed_props_differ`. -/

namespace Trellis

open Syntax
open Relation (ReflGen)

variable {p q name : String} {c c' : Candidate} {s s' : Source} {M M' : Modules}

/-! ### Props -/

namespace Candidate

theorem firstParameter?_eq (c : Candidate) : c.firstParameter? = c.function.parameterOf? := rfl

/-- What a candidate says about its props is what its body does with the variable. -/
theorem uses_of_binds (h : c.function.Binds name) :
    c.uses = (c.function.part? .body).elim [] (Mention.ofBody name) := by
  obtain ⟨b, hb, hname⟩ := (Option.any_eq_true _ _).mp h
  rw [Mention.isVariable, Bool.and_eq_true, decide_eq_true_eq, decide_eq_true_eq] at hname
  unfold uses
  rw [firstParameter?_eq, hb]
  dsimp only
  rw [hname.1, hname.2]

theorem Renames.uses_eq (h : c.Renames p q c') : c'.uses = c.uses := by
  have hbody := h.function.body
  rw [uses_of_binds h.function.binds.1, uses_of_binds h.function.binds.2]
  generalize c.function.part? .body = b at hbody
  generalize c'.function.part? .body = b' at hbody
  cases hbody with
  | none => rfl
  | some hb =>
      have hleft := Mention.ofBody_rename hb.apart.1 (.inr hb.fresh)
      have hright := Mention.ofBody_rename (q := q) hb.apart.2 (.inl rfl)
      rw [Option.elim_some, Option.elim_some, ← hleft, ← hright, hb.eq]

theorem Renames.propsType?_eq (h : c.Renames p q c') : c'.propsType? = c.propsType? := by
  rw [propsType?, firstParameter?_eq, h.function.type, h.ascription, propsType?, firstParameter?_eq]

theorem members_expansion (c : Candidate) (M : Modules) (s : Source) : (c.expansion M s).members =
    c.propsType?.elim [] fun t => (Expansion.ofType M Expansion.levels [] s t).members := by
  unfold expansion
  cases c.propsType? with
  | none => exact Expansion.members_nothing
  | some t => rfl

/-- Candidates that differ in such variables have the same props. -/
theorem props_renames (hs : s.Renames p q s') (hm : Modules.Agree (Source.Renames p q) s s' M M')
    (hc : ReflGen (Renames p q) c c') : c'.props M' s' = c.props M s := by
  have hsame : c'.propsType? = c.propsType? ∧ c'.uses = c.uses ∧ c'.name = c.name := by
    cases hc with
    | refl => exact ⟨rfl, rfl, rfl⟩
    | single hc => exact ⟨hc.propsType?_eq, hc.uses_eq, hc.name⟩
  obtain ⟨htype, huses, hname⟩ := hsame
  have hmembers : (c'.expansion M' s').members = (c.expansion M s).members := by
    rw [members_expansion, members_expansion, htype]
    cases c.propsType? with
    | none => rfl
    | some t => exact hm.members_ofType (fun _ _ hab => hab.declaresAlike) hs _ _ t
  rw [props, mentions, hmembers, huses, hname, hs.checks_eq, props, mentions]

end Candidate

/-! ### Elements -/

/-- The component without its elements. -/
def Component.bare (c : Component) : Component := { c with interactive := [], conditional := [] }

/-- The component, but for tags that are members of a variable. -/
def Component.plain (c : Component) : Component :=
  { c with
    interactive := c.interactive.map InteractiveElement.plain
    conditional := c.conditional.map ConditionalElement.plain }

/-- Whether no tag in a component is a member of a variable. -/
def Component.HasPlainTags (c : Component) : Prop :=
  (∀ e ∈ c.interactive, Text.contains e.tag "." = false) ∧
    ∀ e ∈ c.conditional, Text.contains e.tag "." = false

instance (c : Component) : Decidable c.HasPlainTags := inferInstanceAs (Decidable (_ ∧ _))

theorem Markup.eq_of_plainTag_eq {tag tag' : String} (h : plainTag tag' = plainTag tag)
    (htag : Text.contains tag "." = false) : tag' = tag := by
  have hself : plainTag tag = tag := by rw [plainTag, htag, if_neg Bool.false_ne_true]
  rw [hself, plainTag] at h
  split at h
  · rw [← h] at htag
    exact absurd htag (by decide)
  · exact h

theorem eq_of_map_eq {α β : Type} {f : α → β} {xs ys : List α} (h : ys.map f = xs.map f)
    (hf : ∀ x ∈ xs, ∀ y, f y = f x → y = x) : ys = xs := by
  induction xs generalizing ys with
  | nil => exact List.map_eq_nil_iff.mp h
  | cons x xs ih =>
      obtain ⟨y, ys, rfl, hy, hys⟩ := List.map_eq_cons_iff.mp h
      rw [hf x List.mem_cons_self y hy, ih hys fun x' hx => hf x' (List.mem_cons_of_mem _ hx)]

/-- A component without such tags is the same as any that is plain the same. -/
theorem Component.eq_of_plain_eq {c c' : Component} (h : c'.plain = c.plain)
    (hc : c.HasPlainTags) : c' = c := by
  obtain ⟨name, kind, exported, props, interactive, conditional, count, line⟩ := c
  obtain ⟨name', kind', exported', props', interactive', conditional', count', line'⟩ := c'
  simp only [plain, mk.injEq] at h
  obtain ⟨rfl, rfl, rfl, rfl, hinteractive, hconditional, rfl, rfl⟩ := h
  have hsame : interactive' = interactive := by
    refine eq_of_map_eq hinteractive fun e he e' hplain => ?_
    have htag := Markup.eq_of_plainTag_eq (congrArg InteractiveElement.tag hplain) (hc.1 e he)
    cases e
    cases e'
    dsimp only at htag
    subst htag
    simpa [InteractiveElement.plain] using hplain
  have hsame' : conditional' = conditional := by
    refine eq_of_map_eq hconditional fun e he e' hplain => ?_
    have htag := Markup.eq_of_plainTag_eq (congrArg ConditionalElement.tag hplain) (hc.2 e he)
    cases e
    cases e'
    dsimp only at htag
    subst htag
    simpa [ConditionalElement.plain] using hplain
  rw [hsame, hsame']

namespace Candidate

/-- Whether the names of the variables in which two candidates take the props tell nothing: they are
clear, or the variables stand in no condition and no handler. -/
def Unseen (p q : String) (props : List ComponentProp) (c c' : Candidate) : Prop :=
  ClearNames p q (props.map (·.name)) ∨
    (∀ b ∈ c.function.part? .body, Markup.Unread p b) ∧
      ∀ b ∈ c'.function.part? .body, Markup.Unread q b

/-- What the elements of a candidate add to its contract. -/
def scans (props : List ComponentProp) (c : Candidate) : List Markup.Scan :=
  c.visits.filterMap (Markup.Scan.ofVisit? props)

theorem scans_eq (props : List ComponentProp) (c : Candidate) :
    c.scans props = (c.function.part? .body).elim [] (Markup.scans props) := by
  unfold scans visits
  cases c.function.part? .body <;> rfl

theorem Renames.length_visits (h : c.Renames p q c') : c'.visits.length = c.visits.length := by
  have hbody := h.function.body
  unfold visits
  generalize c.function.part? .body = b at hbody
  generalize c'.function.part? .body = b' at hbody
  cases hbody with
  | none => rfl
  | @some b b' hb =>
      have hvisits {n : String} {t : Tree} (ht : t.Apart n) :
          (Markup.visits [] (t.rename n q)).length = (Markup.visits [] t).length := by
        rw [← List.map_nil (f := Enclosure.rename n q), Markup.visits_rename ht, List.map_nil,
          List.length_map]
      rw [Option.elim_some, Option.elim_some, ← hvisits hb.apart.1, ← hvisits hb.apart.2, hb.eq]

theorem Renames.scans_eq {props : List ComponentProp} (h : c.Renames p q c')
    (hunseen : Unseen p q props c c') :
    (c'.scans props).map Markup.Scan.plain = (c.scans props).map Markup.Scan.plain := by
  have hbody := h.function.body
  unfold Unseen at hunseen
  rw [Candidate.scans_eq, Candidate.scans_eq]
  generalize c.function.part? .body = b at hbody hunseen
  generalize c'.function.part? .body = b' at hbody hunseen
  cases hbody with
  | none => rfl
  | @some b b' hb =>
      have hleft := Markup.scans_rename hb.apart.1 (.inr hb.fresh)
        (hunseen.imp_right fun hunread => hunread.1 b rfl)
      have hright := Markup.scans_rename (q := q) hb.apart.2 (.inl rfl)
        (hunseen.imp (fun hclear => ⟨⟨hclear.ne_props.2, hclear.ne_props.2⟩,
          ⟨hclear.notMem.2, hclear.notMem.2⟩⟩) fun hunread => hunread.2 b' rfl)
      rw [Option.elim_some, Option.elim_some, ← hleft, ← hright, hb.eq]

end Candidate

/-! ### Components -/

namespace Candidate

theorem component?_eq (c : Candidate) (kind : ExportKind) (exported : String)
    (props : List ComponentProp) : c.component? kind exported props =
      if c.visits.length = 0 then none
      else some ⟨c.name, kind, exported, props, (c.scans props).filterMap Markup.Scan.always?,
        (c.scans props).filterMap Markup.Scan.gated?, c.visits.length, c.line⟩ := by
  unfold component?
  simp only [List.isEmpty_iff, List.length_eq_zero_iff]
  rfl

theorem bare_component?_renames (h : c.Renames p q c') (kind : ExportKind) (exported : String)
    (props : List ComponentProp) : (c'.component? kind exported props).map Component.bare =
      (c.component? kind exported props).map Component.bare := by
  rw [component?_eq, component?_eq, h.length_visits, h.name, h.line]
  split <;> rfl

theorem plain_component?_renames {props : List ComponentProp} (h : c.Renames p q c')
    (hunseen : Unseen p q props c c') (kind : ExportKind) (exported : String) :
    (c'.component? kind exported props).map Component.plain =
      (c.component? kind exported props).map Component.plain := by
  have halways (scans : List Markup.Scan) :
      (scans.filterMap Markup.Scan.always?).map InteractiveElement.plain =
        (scans.map Markup.Scan.plain).filterMap Markup.Scan.always? := by
    rw [List.map_filterMap, List.filterMap_map]
    exact List.filterMap_congr fun scan _ => by cases scan <;> rfl
  have hgated (scans : List Markup.Scan) :
      (scans.filterMap Markup.Scan.gated?).map ConditionalElement.plain =
        (scans.map Markup.Scan.plain).filterMap Markup.Scan.gated? := by
    rw [List.map_filterMap, List.filterMap_map]
    exact List.filterMap_congr fun scan _ => by cases scan <;> rfl
  rw [component?_eq, component?_eq, h.length_visits, h.name, h.line]
  split
  · rfl
  · simp only [Option.map_some, Component.plain, halways, hgated, h.scans_eq hunseen]

end Candidate

namespace Analysis

/-- The component that an exported candidate is, if it renders markup. -/
def componentOf? (M : Modules) (s : Source) (e : Candidate × ExportKind × String) :
    Option Component :=
  e.1.component? e.2.1 e.2.2 (e.1.props M s)

theorem components_eq (M : Modules) (s : Source) :
    components M s = (exported s).filterMap (componentOf? M s) := rfl

/-- What two exported candidates have in common that are the same, or differ in the variables `p` and
`q` in which they take the props. -/
structure Counterparts (p q : String) (M M' : Modules) (s s' : Source)
    (e e' : Candidate × ExportKind × String) : Prop where
  /-- They differ in the variables, if at all. -/
  renames : ReflGen (Candidate.Renames p q) e.1 e'.1
  /-- They leave their modules in the same way. -/
  exported : e'.2 = e.2
  /-- They have the same props. -/
  props : e'.1.props M' s' = e.1.props M s
  /-- They are components with as many elements, or both are none. -/
  bare : (componentOf? M' s' e').map Component.bare = (componentOf? M s e).map Component.bare
  /-- If the names tell nothing, they have the same elements, but for tags that are members of a
  variable. -/
  plain : e.1.Unseen p q (e.1.props M s) e'.1 →
    (componentOf? M' s' e').map Component.plain = (componentOf? M s e).map Component.plain
  /-- If moreover no tag is a member of a variable, they are the same component. -/
  equal : e.1.Unseen p q (e.1.props M s) e'.1 → ∀ x ∈ componentOf? M s e, x.HasPlainTags →
    componentOf? M' s' e' = some x
  /-- If they do not differ, neither do their components. -/
  same : e'.1 = e.1 → componentOf? M' s' e' = componentOf? M s e

/-- The components of two sources that differ in the names of the variables in which functions take the
props: their props are the same, and if the names tell nothing, so are their elements. -/
theorem exported_renames (hs : s.Renames p q s')
    (hm : Modules.Agree (Source.Renames p q) s s' M M') :
    List.Forall₂ (Counterparts p q M M' s s') (exported s) (exported s') := by
  refine List.rel_filterMap (fun c c' hc => ?_) hs.candidates
  have hprops := Candidate.props_renames hs hm hc
  have hname : c'.name = c.name := by
    cases hc with
    | refl => rfl
    | single hc => exact hc.name
  rw [hname, hs.exports_eq]
  cases Export.lookup (Export.ofSource s) c.name with
  | none => exact .none
  | some e =>
      obtain ⟨kind, exported⟩ := e
      have hsame : c' = c → componentOf? M' s' (c', kind, exported) =
          componentOf? M s (c, kind, exported) := by
        rintro rfl
        rw [componentOf?, hprops, componentOf?]
      have hplain (hunseen : c.Unseen p q (c.props M s) c') :
          (componentOf? M' s' (c', kind, exported)).map Component.plain =
            (componentOf? M s (c, kind, exported)).map Component.plain := by
        cases hc with
        | refl => rw [hsame rfl]
        | single hc =>
            rw [componentOf?, hprops, componentOf?]
            exact Candidate.plain_component?_renames hc hunseen _ _
      refine .some ⟨hc, rfl, hprops, ?_, hplain, fun hunseen x hx htags => ?_, hsame⟩
      · cases hc with
        | refl => rw [hsame rfl]
        | single hc =>
            rw [componentOf?, hprops, componentOf?]
            exact Candidate.bare_component?_renames hc _ _ _
      · have hmap := hplain hunseen
        rw [hx, Option.map_some, Option.map_eq_some_iff] at hmap
        obtain ⟨x', hx', heq⟩ := hmap
        rw [hx', Component.eq_of_plain_eq heq htags]

/-- A source with a button that is shown if `o` holds, and calls `onF`; the props are in a variable. -/
def shown (name : String) : Except LoadFault Source :=
  Source.ofText ⟨"A.tsx"⟩ ("export function A(" ++ name ++ ")\x7breturn " ++ name ++
    ".o&&<button onClick=\x7b" ++ name ++ ".onF\x7d/>\x7d")

theorem exported_renames_shown : ∃ s s', shown "p" = .ok s ∧ shown "q" = .ok s' ∧
    s.Renames "p" "q" s' ∧
    (∀ e ∈ exported s, ClearNames "p" "q" ((e.1.props Modules.none s).map (·.name))) ∧
    List.Forall₂ (Counterparts "p" "q" Modules.none Modules.none s s') (exported s) (exported s') ∧
    components Modules.none s' = components Modules.none s ∧
    (components Modules.none s).map (·.props.map (·.name)) = [["o", "onF"]] := by
  have h : (shown "p").toOption.any (fun s => (shown "q").toOption.any fun s' =>
      s.Renames "p" "q" s' ∧
        (∀ e ∈ exported s, ClearNames "p" "q" ((e.1.props Modules.none s).map (·.name)) ∧
          ∀ x ∈ componentOf? Modules.none s e, x.HasPlainTags) ∧
          (components Modules.none s).map (·.props.map (·.name)) = [["o", "onF"]]) = true := by
    decide +kernel
  obtain ⟨s, hs, h⟩ := exists_ok_of_any h
  obtain ⟨s', hs', h⟩ := exists_ok_of_any h
  obtain ⟨hrenames, hclear, hprops⟩ := of_decide_eq_true h
  have hmodules : Modules.Agree (Source.Renames "p" "q") s s' Modules.none Modules.none :=
    .bounded rfl fun _ _ => .lost nofun nofun
  have hcounterparts := exported_renames hrenames hmodules
  have hcomponents : components Modules.none s' = components Modules.none s := by
    rw [components_eq, components_eq]
    refine filterMap_forall₂ ((List.forall₂_and_left _ _).mpr ⟨hclear, hcounterparts⟩) fun e e' he => ?_
    obtain ⟨⟨hnames, htags⟩, hsame⟩ := he
    cases hx : componentOf? Modules.none s e with
    | none =>
        have hbare := hsame.bare
        rw [hx, Option.map_none, Option.map_eq_none_iff] at hbare
        exact hbare
    | some x => exact hsame.equal (.inl hnames) x hx (htags x hx)
  exact ⟨s, s', hs, hs', hrenames, fun e he => (hclear e he).1, hcounterparts, hcomponents, hprops⟩

/-- Conditions and handlers are read for the variable `props` only: under another name, the element is
taken to be shown always, and to call nothing. -/
theorem renamed_props_differ : ∃ s s', shown "props" = .ok s ∧ shown "p" = .ok s' ∧
    s.Renames "props" "p" s' ∧
    (components Modules.none s).map (·.conditional.map (·.requiredProps)) = [[["o"]]] ∧
    (components Modules.none s').map (·.conditional) = [[]] ∧
    (components Modules.none s').map (·.interactive.map (·.handlerProps)) = [[[]]] := by
  have h : (shown "props").toOption.any (fun s => (shown "p").toOption.any fun s' =>
      s.Renames "props" "p" s' ∧
        (components Modules.none s).map (·.conditional.map (·.requiredProps)) = [[["o"]]] ∧
          (components Modules.none s').map (·.conditional) = [[]] ∧
            (components Modules.none s').map (·.interactive.map (·.handlerProps)) = [[[]]]) =
      true := by
    decide +kernel
  obtain ⟨s, hs, h⟩ := exists_ok_of_any h
  obtain ⟨s', hs', h⟩ := exists_ok_of_any h
  exact ⟨s, s', hs, hs', of_decide_eq_true h⟩

end Analysis

end Trellis
