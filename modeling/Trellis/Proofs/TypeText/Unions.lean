import Trellis.Proofs.TypeText.Members
import Trellis.Proofs.TypeText.Normal
import Trellis.Proofs.TypeText.Shapes

/-! # Unions in types

A type admits `undefined` when this is one of its alternatives. The text of the type is read
otherwise in two places, and rightly everywhere else:

* the members of a union that a function returns count as members of the function type,
* the members of a union in parentheses do not count as members of the type around it.

`reads_at_bars` says what is read for each type, and `union_in_result_counts` that this is not what
the type says. -/

namespace Trellis.TypeText

open Text.Blank

/-! ### Alternatives -/

section Alternatives

variable {x : String} {o first : Operand} {rest : List Operand}

theorem Operand.Is.admits (h : o.Is x) : (TypeExpr.union o []).Admits x := by
  obtain ⟨w, hpeel, hw⟩ := h
  fun_induction Operand.peel o with
  | case1 o ih => exact .paren List.mem_cons_self (ih hpeel)
  | case2 o _ => exact .word (by rw [hpeel]; exact List.mem_cons_self) hw

/-- The alternatives of a union are its operands, and the alternatives of those in parentheses. -/
theorem TypeExpr.admits_union_iff : (TypeExpr.union first rest).Admits x ↔
    (∃ o ∈ first :: rest, o.Is x) ∨ ∃ u, .paren u ∈ first :: rest ∧ u.Admits x := by
  constructor
  · rintro (⟨hm, hw⟩ | ⟨hm, ht⟩)
    · exact .inl ⟨_, hm, _, rfl, hw⟩
    · exact .inr ⟨_, hm, ht⟩
  · rintro (⟨o, hm, ho⟩ | ⟨u, hm, hu⟩)
    · cases ho.admits with
      | word hm' hw =>
          cases List.mem_singleton.mp hm'
          exact .word hm hw
      | paren hm' hu =>
          cases List.mem_singleton.mp hm'
          exact .paren hm hu
    · exact .paren hm hu

theorem TypeExpr.not_admits_function (params : List Entry) (result : TypeExpr) :
    ¬ (TypeExpr.function params result).Admits x := nofun

end Alternatives

/-! ### Members -/

/-- The word for a missing value. -/
def Word.undefined : Word := ⟨"undefined".toList, by decide, by decide⟩

/-- The word for no value. -/
def Word.null : Word := ⟨"null".toList, by decide, by decide⟩

section Members

variable {f : Literal → Literal} {t : TypeExpr} {o : Operand} {text : String} {p : List Char}

theorem mem_unionMembers_iff {x : String} :
    x ∈ unionMembers text ↔ x.toList ∈ members text.toList := by
  rw [unionMembers, List.mem_map]
  constructor
  · rintro ⟨m, hm, rfl⟩
    rwa [String.toList_ofList]
  · exact fun h => ⟨_, h, String.ofList_toList⟩

/-- `undefined` is found just when it is an operand between the bars outside of brackets. -/
theorem includesUndefined_iff (hclose : AllClose f t.tokens) (h : t.WrittenAs f text) :
    includesUndefined text = true ↔ ∃ o ∈ t.atBars, o.Is "undefined" := by
  rw [includesUndefined, List.contains_iff_mem, mem_unionMembers_iff]
  exact word_mem_members_iff hclose h Word.undefined

theorem isNullish_iff (hp : Spells f o.tokens p) :
    isNullish (bare p) = true ↔ o.Is "undefined" ∨ o.Is "null" := by
  rw [isNullish, Bool.or_eq_true, decide_eq_true_eq, decide_eq_true_eq]
  exact or_congr (Operand.bare_eq_word_iff (w := Word.undefined) hp)
    (Operand.bare_eq_word_iff (w := Word.null) hp)

/-- The only member of the text of an operand is what is left of it. -/
theorem members_operand (hclose : AllClose f o.tokens) (hp : Spells f o.tokens p) :
    members p = [bare p] := by
  have hpieces := splitBars_of_quiet (o.passes hclose hp _ Scan.settled_start).1 []
  have hne := bare_ne_nil hp (o.exists_solid f)
  rw [List.append_nil] at hpieces
  rw [members, hpieces, splitBars, attach, List.append_nil, List.map_singleton,
    List.filter_eq_self]
  simpa using hne

theorem classify_operand (hclose : AllClose f o.tokens) (hp : Spells f o.tokens p) :
    TypeShape.classify (String.ofList p) =
      if isNullish (bare p) then .unknown else shapeOfMember (bare p) := by
  rw [TypeShape.classify, String.toList_ofList, members_operand hclose hp]
  cases hnull : isNullish (bare p) with
  | true => rw [List.filter_cons, hnull]; rfl
  | false => rw [List.filter_cons, hnull]; rfl

/-- The operands behind the bars are parts of the type. -/
theorem TypeExpr.later_tokens_subset : (t : TypeExpr) → ∀ o ∈ t.later, o.tokens ⊆ t.tokens
  | .function _ result, o, ho =>
    List.subset_cons_of_subset _ (List.subset_append_of_subset_right _ (List.subset_cons_of_subset _
      (List.subset_cons_of_subset _ (result.later_tokens_subset o ho))))
  | .union first rest, o, ho => by
    refine List.subset_append_of_subset_right _ ?_
    rw [TypeExpr.later] at ho
    induction rest with
    | nil => exact absurd ho List.not_mem_nil
    | cons m rest ih =>
        rw [barTokens]
        refine List.subset_cons_of_subset _ ?_
        rcases List.mem_cons.mp ho with rfl | ho
        · exact List.subset_append_left _ _
        · exact List.subset_append_of_subset_right _ (ih ho)

/-! ### Function types -/

/-- Parameters in parentheses and an arrow are read as a function. -/
theorem hasTopArrow_of_params {inner ts : List Token}
    (hclose : AllClose f inner) (hwoven : Woven true inner)
    (hp : Spells f (.opening .round :: (inner ++ .closing .round :: .arrow :: ts)) p) :
    hasTopArrow .start p = true := by
  obtain ⟨a, b, rfl, hpasses, -, -⟩ := hp.exists_arrow hclose hwoven
  obtain ⟨hquiet, hs⟩ := hpasses _ Scan.settled_start
  rw [hasTopArrow_of_quiet hquiet]
  exact hasTopArrow_arrow hs b

/-- What is left of the text of a function type is a function, no absent value. -/
theorem shapeOfMember_function {inner ts : List Token} (hclose : AllClose f inner)
    (hwoven : Woven true inner) (hbalanced : AllBalanced f inner)
    (hp : Spells f (.opening .round :: (inner ++ .closing .round :: .arrow :: ts)) p) :
    shapeOfMember (bare p) = .callback ∧ isNullish (bare p) = false := by
  have hbare := bare_of_group hp hwoven hbalanced (List.cons_ne_nil _ _)
  obtain ⟨hspells, -⟩ := hp.of_trim
  obtain ⟨rest, htrim, -, -⟩ := hp.trim
  refine ⟨?_, ?_⟩
  · rw [shapeOfMember, hbare, if_pos (hasTopArrow_of_params hclose hwoven hspells)]
  · rw [hbare, htrim]
    rfl

/-- Pieces are left out or agree with a function just when they are absent values or functions on
their own. -/
theorem all_callback_iff {os : List Operand} {pieces : List (List Char)}
    (hall : List.Forall₂ (fun o p => Spells f o.tokens p) os pieces)
    (hclose : ∀ o ∈ os, AllClose f o.tokens) :
    ((((pieces.map bare).filter (! isNullish ·)).map shapeOfMember).all
        (TypeShape.sameKind · .callback) = true) ↔
      List.Forall₂ (fun o p => o.Is "undefined" ∨ o.Is "null" ∨ TypeShape.classify p = .callback)
        os (pieces.map String.ofList) := by
  induction hall with
  | nil => simp
  | @cons o p os pieces hp _ ih =>
      rw [List.forall_mem_cons] at hclose
      rw [List.map_cons, List.map_cons, List.forall₂_cons, ← ih hclose.2, ← or_assoc,
        ← isNullish_iff hp, classify_operand hclose.1 hp, List.filter_cons]
      cases hnull : isNullish (bare p) with
      | true => simp
      | false => simp [TypeShape.sameKind_callback]

end Members

/-! ### What is read at the bars -/

/-- What is read off a text of a type, its literals written as `f` has them. -/
structure ReadAtBars (f : Literal → Literal) (t : TypeExpr) (text : String) : Prop where
  /-- `undefined` is found just when it is an operand between the bars outside of brackets, those of
  the result of a function type included. -/
  includes_iff : includesUndefined text = true ↔ ∃ o ∈ t.atBars, o.Is "undefined"
  /-- It is found although the type does not admit it just when a function type returns it behind a
  bar. -/
  surplus_iff : (includesUndefined text = true ∧ ¬ t.Admits "undefined") ↔
    ∃ params result, t = .function params result ∧ ∃ o ∈ result.later, o.Is "undefined"
  /-- It is not found although the type admits it just when only unions in parentheses have it. -/
  missing_iff : (includesUndefined text = false ∧ t.Admits "undefined") ↔
    ∃ first rest u, t = .union first rest ∧ (∀ o ∈ first :: rest, ¬ o.Is "undefined") ∧
      .paren u ∈ first :: rest ∧ u.Admits "undefined"
  /-- A prop of the type is required just when it has no default, is not optional and `undefined` is
  not found. -/
  required_iff : ∀ m : PropMember, m.type = text → (m.finish.isRequired = true ↔
    m.hasDefault = false ∧ m.optional = false ∧ ∀ o ∈ t.atBars, ¬ o.Is "undefined")
  /-- A function type is read as a function just when each operand behind a bar of its result is an
  absent value or read as a function on its own, and else as nothing that is known. -/
  function : ∀ params result, t = .function params result →
    AllBalanced f (entryTokens .comma params) → ∃ pieces : List String,
      List.Forall₂ (fun o p => Spells f o.tokens p.toList) t.later pieces ∧
      (TypeShape.classify text = .callback ↔ List.Forall₂ (fun o p => o.Is "undefined" ∨
        o.Is "null" ∨ TypeShape.classify p = .callback) t.later pieces) ∧
      (TypeShape.classify text = .callback ∨ TypeShape.classify text = .unknown)
  /-- A function type in parentheses is read as a function. -/
  enclosed : ∀ o params result, t = .union o [] → o.peel = .paren (.function params result) →
    AllBalanced f o.tokens → TypeShape.classify text = .callback

section Reading

variable {f : Literal → Literal} {t : TypeExpr} {text : String}

theorem classify_function {params : List Entry} {result : TypeExpr}
    (hclose : AllClose f (TypeExpr.function params result).tokens)
    (h : (TypeExpr.function params result).WrittenAs f text)
    (hbalanced : AllBalanced f (entryTokens .comma params)) : ∃ pieces : List String,
      List.Forall₂ (fun o p => Spells f o.tokens p.toList) result.later pieces ∧
      (TypeShape.classify text = .callback ↔ List.Forall₂ (fun o p => o.Is "undefined" ∨
        o.Is "null" ∨ TypeShape.classify p = .callback) result.later pieces) ∧
      (TypeShape.classify text = .callback ∨ TypeShape.classify text = .unknown) := by
  obtain ⟨head, pieces, hmembers, hhead, hall⟩ := members_spells hclose h
  have hparams : AllClose f (entryTokens .comma params) :=
    fun l hl => hclose l (TypeExpr.entryTokens_subset params result hl)
  obtain ⟨hshape, hnull⟩ :=
    shapeOfMember_function hparams (woven_entryTokens .comma params) hbalanced hhead
  have hlater := all_callback_iff hall fun o ho l hl =>
    hclose l (TypeExpr.later_tokens_subset _ o ho hl)
  have hclassify : TypeShape.classify text =
      if ((((pieces.map bare).filter (! isNullish ·)).map shapeOfMember).all
        (TypeShape.sameKind · .callback)) then .callback else .unknown := by
    rw [TypeShape.classify, hmembers, List.filter_cons, hnull, Bool.not_false, if_pos rfl,
      List.map_cons, hshape]
    rfl
  refine ⟨pieces.map String.ofList, ?_, ?_, ?_⟩
  · rw [List.forall₂_map_right_iff]
    simp only [String.toList_ofList]
    exact hall
  · refine Iff.trans ?_ hlater
    rw [hclassify]
    split
    · next hall => simp only [hall]
    · next hnot => simp only [hnot, reduceCtorEq]
  · rw [hclassify]
    split
    · exact .inl rfl
    · exact .inr rfl

theorem classify_enclosed {o : Operand} {params : List Entry} {result : TypeExpr}
    (hclose : AllClose f (TypeExpr.union o []).tokens) (h : (TypeExpr.union o []).WrittenAs f text)
    (hpeel : o.peel = .paren (.function params result)) (hbalanced : AllBalanced f o.tokens) :
    TypeShape.classify text = .callback := by
  obtain ⟨head, pieces, hmembers, hhead, hall⟩ := members_spells hclose h
  cases hall
  have hsubset : (TypeExpr.function params result).tokens ⊆ o.tokens := fun u hu =>
    o.peel_tokens_subset (hpeel ▸ TypeExpr.tokens_subset_paren _ hu)
  obtain ⟨p', hp', hbare⟩ := o.bare_peel hhead (.of_all hbalanced)
  rw [hpeel] at hp'
  obtain ⟨inner, hinner, hbare'⟩ := bare_enclosed hp' (TypeExpr.function params result).woven
    fun l hl => hbalanced l (hsubset hl)
  have hparams : entryTokens .comma params ⊆ o.tokens :=
    List.Subset.trans (TypeExpr.entryTokens_subset params result) hsubset
  obtain ⟨hshape, hnull⟩ := shapeOfMember_function
    (fun l hl => hclose l (List.mem_append_left _ (hparams hl)))
    (woven_entryTokens .comma params) (fun l hl => hbalanced l (hparams hl)) hinner
  rw [← hbare', ← hbare] at hshape hnull
  rw [TypeShape.classify, hmembers, List.filter_cons, hnull, Bool.not_false, if_pos rfl,
    List.map_cons, hshape]
  rfl

/-- Types are read at the bars outside of brackets. -/
theorem readAtBars (hclose : AllClose f t.tokens) (h : t.WrittenAs f text) :
    ReadAtBars f t text where
  includes_iff := includesUndefined_iff hclose h
  surplus_iff := by
    rw [includesUndefined_iff hclose h]
    constructor
    · rintro ⟨⟨o, ho, his⟩, hnot⟩
      cases t with
      | union first rest => exact absurd (TypeExpr.admits_union_iff.mpr (.inl ⟨o, ho, his⟩)) hnot
      | function params result => exact ⟨params, result, rfl, o, ho, his⟩
    · rintro ⟨params, result, rfl, hlater⟩
      exact ⟨hlater, TypeExpr.not_admits_function params result⟩
  missing_iff := by
    rw [Bool.eq_false_iff, ne_eq, includesUndefined_iff hclose h]
    constructor
    · rintro ⟨hnot, hadmits⟩
      cases t with
      | union first rest =>
          obtain ⟨u, hu, hadmits⟩ := (TypeExpr.admits_union_iff.mp hadmits).resolve_left hnot
          exact ⟨first, rest, u, rfl, fun o ho his => hnot ⟨o, ho, his⟩, hu, hadmits⟩
      | function params result => exact absurd hadmits (TypeExpr.not_admits_function _ _)
    · rintro ⟨first, rest, u, rfl, hnot, hu, hadmits⟩
      exact ⟨fun ⟨o, ho, his⟩ => hnot o ho his, .paren hu hadmits⟩
  required_iff m hm := by
    rw [PropMember.finish, hm]
    simp only [Bool.not_eq_true', Bool.or_eq_false_iff, and_assoc]
    rw [Bool.eq_false_iff (b := includesUndefined text), ne_eq, includesUndefined_iff hclose h]
    simp only [not_exists, not_and]
  function := by
    rintro params result rfl hbalanced
    have hpieces := classify_function hclose h hbalanced
    exact hpieces
  enclosed := by
    rintro o params result rfl hpeel hbalanced
    exact classify_enclosed hclose h hpeel hbalanced

end Reading

/-- A declared type is read at its bars outside of brackets, as it is written and as it is kept. -/
theorem reads_at_bars {t : TypeExpr} {source : String} (h : t.WrittenAs id source)
    (hclose : ∀ l, .literal l ∈ t.tokens → l.Closes) :
    ReadAtBars id t source ∧ ReadAtBars Literal.squeeze t (normalize source) :=
  ⟨readAtBars hclose h,
    readAtBars (fun l hl => (hclose l hl).squeeze) (.inl (TypeExpr.spells_normalize h))⟩

/-! ### Types that are read right and wrong -/

namespace Precedence

/-- The word for texts. -/
def string : Word := ⟨"string".toList, by decide, by decide⟩

/-- The word for maps. -/
def map : Word := ⟨"Map".toList, by decide, by decide⟩

/-- A literal with a bar and a parenthesis in it. -/
def face : Literal := .single " |  :(" (by decide)

/-- A text or nothing. -/
def maybeString : TypeExpr := .union (.word string) [.word .undefined]

/-- A union of a literal, a map to functions and nothing. -/
def nested : TypeExpr := .union (.literal face)
  [.generic map (.union (.word string) []) [.function [] maybeString],
    .paren (.union (.word .undefined) [])]

/-- The union as it may stand in a source. -/
def nestedSource : String :=
  "\n  | ' |  :('\n  | Map<string, () => string | undefined>\n  | ( undefined )"

theorem nested_writtenAs : nested.WrittenAs id nestedSource := .inr (by decide +kernel)

/-- A function that returns a text or nothing. -/
def load : TypeExpr := .function [] maybeString

theorem load_writtenAs : load.WrittenAs id "() => string | undefined" := .inl (by decide +kernel)

/-- A text or nothing, in parentheses. -/
def grouped : TypeExpr := .union (.paren maybeString) []

theorem grouped_writtenAs : grouped.WrittenAs id "(string | undefined)" := .inl (by decide +kernel)

/-- A function that returns a text or a map. -/
def look : TypeExpr := .function [] (.union (.word string) [.word map])

theorem look_writtenAs : look.WrittenAs id "() => string | Map" := .inl (by decide +kernel)

end Precedence

open Precedence in
/-- Bars in literals, in arguments and in results of argument types do not count, and `undefined` in
parentheses does. -/
theorem reads_at_bars_nested : nested.WrittenAs id nestedSource ∧
    (∀ l, .literal l ∈ nested.tokens → l.Closes) ∧
    normalize nestedSource = "' | :(' | Map<string, () => string | undefined> | ( undefined )" ∧
    includesUndefined (normalize nestedSource) = true := by
  have hclose : ∀ l, .literal l ∈ nested.tokens → l.Closes := by
    intro l hl
    simp only [nested, maybeString, TypeExpr.tokens, Operand.tokens, barTokens, argumentTokens,
      entryTokens, List.mem_cons, List.mem_append, List.not_mem_nil, reduceCtorEq, or_false,
      Token.literal.injEq] at hl
    subst hl
    decide
  refine ⟨nested_writtenAs, hclose, by decide +kernel, ?_⟩
  rw [(reads_at_bars nested_writtenAs hclose).2.includes_iff]
  exact ⟨_, List.mem_cons_of_mem _ (List.mem_cons_of_mem _ List.mem_cons_self), .undefined, rfl,
    rfl⟩

open Precedence in
/-- A union that a function returns counts as a union with the function, and a union in parentheses
does not count. -/
theorem union_in_result_counts :
    (∃ (t : TypeExpr) (text : String), t.WrittenAs id text ∧ ¬ t.Admits "undefined" ∧
      includesUndefined text = true ∧
      (PropMember.finish ⟨"load", text, false, false, false⟩).isRequired = false) ∧
    (∃ (t : TypeExpr) (text : String), t.WrittenAs id text ∧ t.Admits "undefined" ∧
      includesUndefined text = false) ∧
    ∃ (params : List Entry) (result : TypeExpr) (text : String),
      (TypeExpr.function params result).WrittenAs id text ∧
      TypeShape.classify text = .unknown := by
  refine ⟨⟨load, _, load_writtenAs, TypeExpr.not_admits_function _ _, by decide +kernel,
    by decide +kernel⟩, ⟨grouped, _, grouped_writtenAs, ?_, by decide +kernel⟩,
    [], _, _, look_writtenAs, by decide +kernel⟩
  exact .paren List.mem_cons_self (.word (List.mem_cons_of_mem _ List.mem_cons_self) rfl)

end Trellis.TypeText
