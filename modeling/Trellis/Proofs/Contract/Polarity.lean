import Trellis.Proofs.Contract.Components
import Trellis.Proofs.Contract.Gating

/-! # Gates in closed form

A gate is what the conditions around its element ask of the props, each prop with the truth value that
is asked of it first.

* `Gate.asked` lists what is asked, from the innermost condition outwards; a prop may be in it more
  than once, and with both truth values.
* `Gate.ofAsked` keeps the first truth value of each prop. `Gate.add_ofAsked`: to add a prop to such a
  gate is to ask for it last. `Gate.collect_ofAsked` carries this outwards, and
  `Gate.ofEnclosures_cases` says what the gate of an element is.
* `Component.IsGatedBy`: the props of a gate are some of the declared ones, none of them twice and
  none with both truth values. `Analysis.isGatedBy`: this holds of every gated element of a component
  of a source. -/

namespace Trellis

open Syntax

/-! ### First entries -/

namespace Mentions

open Condition (mem_firsts exists_mem_firsts)

variable {es : List (String × Bool)} {e : String × Bool}

/-- The first entries name what all entries name. -/
theorem mem_map_firsts {n : String} :
    n ∈ (firsts es).map Prod.fst ↔ n ∈ es.map Prod.fst := by
  simp only [List.mem_map]
  constructor
  · rintro ⟨e, he, hn⟩
    exact ⟨e, mem_firsts he, hn⟩
  · rintro ⟨e, he, rfl⟩
    exact exists_mem_firsts he

theorem nodup_firsts (es : List (String × Bool)) : ((firsts es).map Prod.fst).Nodup := by
  induction es with
  | nil => exact List.nodup_nil
  | cons e es ih =>
      rw [firsts, List.map_cons, List.nodup_cons]
      refine ⟨fun hmem => ?_, ih.sublist (List.filter_sublist.map _)⟩
      obtain ⟨e', he', hn⟩ := List.mem_map.mp hmem
      exact of_decide_eq_true (List.mem_filter.mp he').2 hn

/-- The first entry for a name is a first entry at the end, too. -/
theorem firsts_concat_of_notMem (h : e.1 ∉ es.map Prod.fst) :
    firsts (es ++ [e]) = firsts es ++ [e] := by
  induction es with
  | nil => rfl
  | cons d es ih =>
      obtain ⟨hd, hmem⟩ := not_or.mp (mt List.mem_cons.mpr h)
      rw [List.cons_append, firsts, ih hmem, List.filter_append,
        List.filter_cons_of_pos (by simpa using hd), List.filter_nil, firsts, List.cons_append]

/-- A further entry for a name changes no first entry. -/
theorem firsts_concat_of_mem (h : e.1 ∈ es.map Prod.fst) : firsts (es ++ [e]) = firsts es := by
  induction es with
  | nil => cases h
  | cons d es ih =>
      rw [List.cons_append, firsts, firsts]
      by_cases hmem : e.1 ∈ es.map Prod.fst
      · rw [ih hmem]
      · have hd : e.1 = d.1 := (List.mem_cons.mp h).resolve_right hmem
        rw [firsts_concat_of_notMem hmem, List.filter_append,
          List.filter_cons_of_neg (by simpa using hd), List.filter_nil, List.append_nil]

/-- A condition mentions none but declared props. -/
theorem declared_of_mem {props : List String} {condition : Tree}
    (h : e ∈ ofCondition props condition) : e.1 ∈ props :=
  List.contains_iff_mem.mp (List.mem_filter.mp (mem_firsts h)).2

end Mentions

/-! ### Gates -/

namespace Gate

open Condition (guards)

/-- What the conditions around an element ask of the props, from the innermost one outwards. -/
def asked (props : List String) (around : List Enclosure) : List (String × Bool) :=
  (guards props around).flatMap fun g =>
    (Mentions.ofCondition props g.1).map fun e => (e.1, g.2 != e.2)

/-- The gate that keeps of each prop the truth value that is asked of it first. -/
def ofAsked (ds : List (String × Bool)) (isRoot : Bool) : Gate where
  required := ((Mentions.firsts ds).filter fun d => d.2).map Prod.fst
  falsy := ((Mentions.firsts ds).filter fun d => !d.2).map Prod.fst
  isRoot := isRoot

variable {ds : List (String × Bool)} {isRoot : Bool}

/-- The props of such a gate are the first ones of each name, sorted by their truth values. -/
theorem perm_ofAsked (ds : List (String × Bool)) (isRoot : Bool) :
    ((ofAsked ds isRoot).required ++ (ofAsked ds isRoot).falsy).Perm
      ((Mentions.firsts ds).map Prod.fst) := by
  rw [ofAsked, ← List.map_append]
  exact (List.filter_append_perm (fun d => d.2) (Mentions.firsts ds)).map Prod.fst

theorem mem_ofAsked {n : String} :
    n ∈ (ofAsked ds isRoot).required ++ (ofAsked ds isRoot).falsy ↔ n ∈ ds.map Prod.fst := by
  rw [(perm_ofAsked ds isRoot).mem_iff, Mentions.mem_map_firsts]

/-- To add a prop to a gate is to ask for it last. -/
theorem add_ofAsked (ds : List (String × Bool)) (isRoot : Bool) (d : String × Bool) :
    (ofAsked ds isRoot).add d.1 d.2 = ofAsked (ds ++ [d]) isRoot := by
  have hmem : ((ofAsked ds isRoot).required.contains d.1 ||
      (ofAsked ds isRoot).falsy.contains d.1) = true ↔ d.1 ∈ ds.map Prod.fst := by
    rw [Bool.or_eq_true, List.contains_iff_mem, List.contains_iff_mem, ← List.mem_append,
      mem_ofAsked]
  unfold add
  split
  · next h => rw [ofAsked, ofAsked, Mentions.firsts_concat_of_mem (hmem.mp h)]
  · next h =>
    have hfirsts := Mentions.firsts_concat_of_notMem (mt hmem.mpr h)
    split
    · next ht => simp [ofAsked, hfirsts, ht]
    · next ht => simp [ofAsked, hfirsts, Bool.eq_false_iff.mpr ht]

theorem addAll_ofAsked (ds : List (String × Bool)) (isRoot truthy : Bool)
    (es : List (String × Bool)) :
    (ofAsked ds isRoot).addAll truthy es =
      ofAsked (ds ++ es.map fun e => (e.1, truthy != e.2)) isRoot := by
  induction es generalizing ds with
  | nil => rw [List.map_nil, List.append_nil]; rfl
  | cons e es ih =>
      have hstep := add_ofAsked ds isRoot (e.1, truthy != e.2)
      rw [addAll, List.foldl_cons, hstep, ← addAll, ih, List.map_cons, List.append_assoc,
        List.singleton_append]

/-- Outwards, a gate goes on by what the conditions ask. -/
theorem collect_ofAsked (props : List String) (around : List Enclosure) (inMarkup : Bool)
    (ds : List (String × Bool)) (isRoot : Bool) :
    collect props inMarkup (some (ofAsked ds isRoot)) around =
      some (ofAsked (ds ++ asked props around) isRoot) := by
  induction around generalizing inMarkup ds with
  | nil => rw [asked, guards, List.flatMap_nil, List.append_nil]; rfl
  | cons x around ih =>
      cases x with
      | markup => exact ih true ds
      | guard condition truthy =>
          rcases collect_guard props inMarkup (some (ofAsked ds isRoot)) condition truthy around with
            ⟨hg, hc⟩ | ⟨hg, hc⟩
          · rw [hc, ih, asked, asked, hg]
          · rw [hc, Option.getD_some, addAll_ofAsked, ih, asked, asked, hg, List.flatMap_cons,
              List.append_assoc]

/-- Outwards from where nothing has been asked, there is a gate if something is asked. -/
theorem collect_none_cases (props : List String) (around : List Enclosure) (inMarkup : Bool) :
    (collect props inMarkup none around = none ∧ asked props around = []) ∨
      ∃ isRoot, collect props inMarkup none around = some (ofAsked (asked props around) isRoot) ∧
        asked props around ≠ [] := by
  induction around generalizing inMarkup with
  | nil => exact .inl ⟨rfl, rfl⟩
  | cons x around ih =>
      cases x with
      | markup => exact ih true
      | guard condition truthy =>
          by_cases he : (Mentions.ofCondition props condition).isEmpty
          · have hasked : asked props (.guard condition truthy :: around) = asked props around := by
              rw [asked, guards, if_pos he, ← asked]
            rw [collect, if_pos he, hasked]
            exact ih inMarkup
          · refine .inr ⟨!inMarkup, ?_, ?_⟩
            · have hstart : (⟨[], [], !inMarkup⟩ : Gate) = ofAsked [] (!inMarkup) := rfl
              rw [collect, if_neg he, Option.getD_none, hstart, addAll_ofAsked, List.nil_append,
                collect_ofAsked, asked, asked, guards, if_neg he, List.flatMap_cons]
            · rw [asked, guards, if_neg he, List.flatMap_cons]
              refine List.append_ne_nil_of_left_ne_nil ?_ _
              simpa using he

/-- The gate of an element is what is asked around it, if anything is. -/
theorem ofEnclosures_cases (props : List String) (around : List Enclosure) :
    (ofEnclosures props around = none ∧ asked props around = []) ∨
      ∃ isRoot, ofEnclosures props around = some (ofAsked (asked props around) isRoot) ∧
        asked props around ≠ [] :=
  collect_none_cases props around false

/-- What is asked is asked of declared props. -/
theorem declared_of_mem_asked {props : List String} {around : List Enclosure} {n : String}
    (h : n ∈ (asked props around).map Prod.fst) : n ∈ props := by
  obtain ⟨d, hd, rfl⟩ := List.mem_map.mp h
  obtain ⟨g, _, hd⟩ := List.mem_flatMap.mp hd
  obtain ⟨e, he, rfl⟩ := List.mem_map.mp hd
  exact Mentions.declared_of_mem (e := e) he

end Gate

/-! ### Gated elements -/

/-- Whether an element is gated by props, without ambiguity. -/
structure ConditionalElement.IsGatedBy (props : List String) (e : ConditionalElement) : Prop where
  /-- Some prop gates the element. -/
  ne_nil : e.requiredProps ++ e.falsyProps ≠ []
  /-- No prop is named twice. -/
  nodup : (e.requiredProps ++ e.falsyProps).Nodup
  /-- No prop must be both truthy and falsy. -/
  disjoint : e.requiredProps.Disjoint e.falsyProps
  /-- Only declared props are named. -/
  declared : ∀ n ∈ e.requiredProps ++ e.falsyProps, n ∈ props

theorem Markup.Scan.isGatedBy {props : List ComponentProp} {v : Visit} {e : ConditionalElement}
    (h : ofVisit? props v = some (.gated e)) : e.IsGatedBy (props.map (·.name)) := by
  obtain ⟨g, hg, hrequired, hfalsy⟩ := gate_of_gated h
  rcases Gate.ofEnclosures_cases (props.map (·.name)) v.around with
    ⟨hnone, _⟩ | ⟨isRoot, hsome, hne⟩
  · rw [hnone] at hg
    cases hg
  · rw [hsome, Option.some.injEq] at hg
    subst hg
    have hperm := Gate.perm_ofAsked (Gate.asked (props.map (·.name)) v.around) isRoot
    have hnodup : (e.requiredProps ++ e.falsyProps).Nodup := by
      rw [hrequired, hfalsy, hperm.nodup_iff]
      exact Mentions.nodup_firsts _
    refine ⟨?_, hnodup, List.disjoint_of_nodup_append hnodup, fun n hn => ?_⟩
    · obtain ⟨d, hd⟩ := List.exists_mem_of_ne_nil _ hne
      rw [hrequired, hfalsy]
      exact List.ne_nil_of_mem (Gate.mem_ofAsked.mpr (List.mem_map.mpr ⟨d, hd, rfl⟩))
    · rw [hrequired, hfalsy] at hn
      exact Gate.declared_of_mem_asked (Gate.mem_ofAsked.mp hn)

/-- A gated element of a component is one of its elements, under its gate. -/
theorem Candidate.exists_gated_of_component? {cand : Candidate} {kind : ExportKind}
    {exported : String} {props : List ComponentProp} {c : Component}
    (h : cand.component? kind exported props = some c) {e : ConditionalElement}
    (he : e ∈ c.conditional) :
    ∃ v ∈ cand.visits, Markup.Scan.ofVisit? props v = some (.gated e) := by
  unfold component? at h
  split at h
  · cases h
  · cases h
    obtain ⟨scan, hscan, he⟩ := List.mem_filterMap.mp he
    obtain ⟨v, hv, hscan⟩ := List.mem_filterMap.mp hscan
    cases scan with
    | always x => cases he
    | gated x =>
        cases he
        exact ⟨v, hv, hscan⟩

/-- The gated elements of every component of a source are gated by its props. -/
theorem Analysis.isGatedBy {modules : Modules} {s : Source} {c : Component}
    (h : c ∈ components modules s) {e : ConditionalElement} (he : e ∈ c.conditional) :
    e.IsGatedBy (c.props.map (·.name)) := by
  obtain ⟨⟨cand, kind, exported⟩, _, hc⟩ := List.mem_filterMap.mp h
  obtain ⟨v, _, hv⟩ := Candidate.exists_gated_of_component? hc he
  rw [Candidate.props_of_component? hc]
  exact Markup.Scan.isGatedBy hv

end Trellis
