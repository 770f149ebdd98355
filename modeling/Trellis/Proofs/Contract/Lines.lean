import Trellis.Proofs.Contract.Defaults

/-! # Trees that differ in lines

What is read of trees that are the same but for the lines on which their parts stand.

* `Tree.Same` says that two trees are; their parts then are the same as well.
* `Mention.ofPattern_unlined` and `Mention.ofBody_unlined`: what is said about the props does not
  depend on lines. `Markup.length_visits_unlined`: nor does the number of elements.
* `TypeMember.importedBy?_unlined`, `Export.ofSpecifier?_unlined`: nor do imports and exports. -/

namespace Trellis

open Syntax

namespace Tree

variable {t t' : Tree}

theorem descendants_unlined (t : Tree) : t.unlined.descendants = t.descendants.map unlined := by
  induction t using induct with
  | node k l x n ts ih =>
      rw [descendants_eq, descendants_eq, children_unlined, List.map_cons, List.flatMap_map,
        List.map_flatMap]
      refine congrArg _ (List.flatMap_congr fun c hc => ?_)
      rw [kind_unlined]
      split
      · rfl
      · exact ih c hc

theorem hasMark_unlined (t : Tree) (mark : String) : t.unlined.hasMark mark = t.hasMark mark := by
  rw [hasMark, children_unlined, List.any_map, hasMark]
  refine congrArg (t.children.any ·) (funext fun c => ?_)
  rw [Function.comp_apply, kind_unlined, text_unlined]

/-! ### Trees that are the same -/

/-- Whether two trees are the same but for lines. -/
def Same (t t' : Tree) : Prop := t'.unlined = t.unlined

instance : DecidableRel Same := fun _ _ => inferInstanceAs (Decidable (_ = _))

/-- What does not depend on lines is read alike. -/
theorem Same.eq_of_unlined {α : Type} {f : Tree → α} (h : t.Same t') (hf : ∀ t, f t.unlined = f t) :
    f t' = f t := by
  rw [← hf, h, hf]

theorem Same.kind (h : t.Same t') : t'.kind = t.kind := h.eq_of_unlined kind_unlined

theorem Same.text (h : t.Same t') : t'.text = t.text := h.eq_of_unlined text_unlined

theorem Same.label (h : t.Same t') : t'.label = t.label := h.eq_of_unlined label_unlined

theorem Same.children (h : t.Same t') : List.Forall₂ Same t.children t'.children := by
  have hmap : t'.children.map unlined = t.children.map unlined := by
    rw [← children_unlined, h, children_unlined]
  rw [← List.forall₂_eq_eq_eq, List.forall₂_map_left_iff, List.forall₂_map_right_iff] at hmap
  exact hmap.flip

theorem Same.parts (h : t.Same t') : List.Forall₂ Same t.parts t'.parts := by
  refine List.rel_filter (fun c c' hc => ?_) h.children
  dsimp only
  rw [Same.kind hc]

theorem Same.part? (h : t.Same t') (l : Label) : Option.Rel Same (t.part? l) (t'.part? l) :=
  find?_forall₂ h.children fun c c' hc => by rw [Same.label hc]

theorem Same.content? (h : t.Same t') : Option.Rel Same t.content? t'.content? :=
  find?_forall₂ h.parts fun c c' hc => by rw [Same.kind hc]

/-- What does not depend on lines is read alike of parts that are the same. -/
theorem map_eq_of_rel_same {α : Type} {f : Tree → α} {x x' : Option Tree} (h : Option.Rel Same x x')
    (hf : ∀ t, f t.unlined = f t) : x'.map f = x.map f := by
  cases h with
  | none => rfl
  | some h => rw [Option.map_some, Option.map_some, h.eq_of_unlined hf]

end Tree

/-! ### What is said about the props -/

namespace Mention

theorem ofEntry?_unlined (t : Tree) : ofEntry? t.unlined = ofEntry? t := by
  unfold ofEntry?
  rw [Tree.kind_unlined]
  split
  · rw [Tree.text_unlined]
  · rw [Tree.part?_unlined]
    cases t.part? .left with
    | none => rfl
    | some left =>
        simp only [Option.map_some, Option.bind_eq_bind, Option.bind_some, Tree.text_unlined]
  · rw [Tree.part?_unlined, Tree.part?_unlined, Option.any_map]
    cases t.part? .key with
    | none => rfl
    | some key =>
        simp only [Option.map_some, Option.bind_eq_bind, Option.bind_some, Tree.text_unlined,
          Tree.kind_unlined]
  · rfl

theorem ofPattern_unlined (t : Tree) : ofPattern t.unlined = ofPattern t := by
  rw [ofPattern, Tree.parts_unlined, List.filterMap_map, ofPattern]
  exact List.filterMap_congr fun c _ => ofEntry?_unlined c

theorem isVariable_unlined (name : String) (t : Tree) :
    isVariable name t.unlined = isVariable name t := by
  rw [isVariable, Tree.kind_unlined, Tree.text_unlined, isVariable]

theorem ofUse_unlined (props : String) (t : Tree) : ofUse props t.unlined = ofUse props t := by
  unfold ofUse
  rw [Tree.kind_unlined]
  split
  · rw [Tree.part?_unlined, Tree.part?_unlined]
    cases t.part? .object with
    | none => rfl
    | some o =>
        cases t.part? .property with
        | none => rfl
        | some p => simp only [Option.map_some, isVariable_unlined, Tree.text_unlined]
  · rw [Tree.part?_unlined, Tree.part?_unlined]
    cases t.part? .value with
    | none => rfl
    | some v =>
        cases t.part? .name with
        | none => rfl
        | some n =>
            simp only [Option.map_some, isVariable_unlined, Tree.kind_unlined, ofPattern_unlined]
  · rfl

/-- What a body says does not depend on where it stands. -/
theorem ofBody_unlined (props : String) (t : Tree) : ofBody props t.unlined = ofBody props t := by
  rw [ofBody, Tree.descendants_unlined, List.flatMap_map, ofBody]
  exact List.flatMap_congr fun d _ => ofUse_unlined props d

end Mention

/-- Wherever a tree stands, and whatever stands around it, it has as many elements. -/
theorem Markup.length_visits_unlined (t : Tree) (around around' : List Enclosure) :
    (visits around' t.unlined).length = (visits around t).length := by
  induction t using Tree.induct generalizing around around' with
  | node k l x n ts ih =>
      have helement : Enclosure.isElement (Tree.node k l x n ts).unlined =
          Enclosure.isElement (.node k l x n ts) := by
        rw [Enclosure.isElement, Tree.kind_unlined, Enclosure.isElement]
      rw [visits_eq, visits_eq, helement, Tree.children_unlined, List.flatMap_map,
        List.length_append, List.length_append, List.length_flatMap, List.length_flatMap]
      congr 1
      · split <;> rfl
      · refine congrArg List.sum (List.map_congr_left fun c hc => ?_)
        rw [Tree.kind_unlined]
        split
        · rfl
        · exact ih c hc _ _

/-! ### Imports and exports -/

namespace TypeMember

theorem partsOf_unlined (k : Kind) (t : Tree) :
    partsOf k t.unlined = (partsOf k t).map Tree.unlined := by
  rw [partsOf, Tree.parts_unlined, List.filter_map, partsOf]
  simp only [Function.comp_def, Tree.kind_unlined]

theorem importSpecifiers_unlined (t : Tree) :
    importSpecifiers t.unlined = (importSpecifiers t).map Tree.unlined := by
  simp only [importSpecifiers, partsOf_unlined, List.flatMap_map, List.map_flatMap]

theorem boundName?_unlined (t : Tree) : boundName? t.unlined = boundName? t := by
  unfold boundName?
  rw [Tree.part?_unlined, Tree.part?_unlined]
  cases t.part? .alias with
  | none => cases t.part? .name <;> simp
  | some a => simp

theorem importedBy?_unlined (name : String) (t : Tree) :
    importedBy? name t.unlined = importedBy? name t := by
  unfold importedBy?
  rw [Tree.kind_unlined, Tree.part?_unlined, importSpecifiers_unlined, List.find?_map]
  simp only [Function.comp_def, boundName?_unlined]
  cases t.part? .source with
  | none => rfl
  | some source =>
      cases (importSpecifiers t).find? fun c => boundName? c = some name with
      | none => simp
      | some spec => cases h : spec.part? .name <;> simp [h]

end TypeMember

theorem Export.ofSpecifier?_unlined (t : Tree) : ofSpecifier? t.unlined = ofSpecifier? t := by
  unfold ofSpecifier?
  rw [Tree.kind_unlined, Tree.part?_unlined, Tree.part?_unlined]
  cases t.part? .name with
  | none => rfl
  | some n => cases t.part? .alias <;> simp

end Trellis
