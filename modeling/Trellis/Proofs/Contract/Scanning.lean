import Mathlib.Logic.Basic
import Trellis.Proofs.Contract.Gating
import Trellis.Proofs.Contract.Places

/-! # What is recorded of the elements

Which elements of a body go into a contract.

* `Tree.Guards` says that a place is the condition under which another place below it is rendered,
  and that the condition mentions a declared prop. `Tree.HeadsSide` says that no named element stands
  between a place and the innermost such condition.
* `Gate.exists_iff` and `Gate.isRoot_iff`: that is what the gate of an element tells.
* `Markup.Records` says that a list of records is that of just the elements with some property, each
  once, in the order of the source.
* `Candidate.scan_exact`: an element that a user acts on is recorded as always rendered if no
  condition guards it, and as conditional otherwise; any other is recorded if it heads the side of a
  condition. -/

namespace Trellis

open Syntax

/-! ### Conditions around an element -/

namespace Enclosure

/-- Whether it is a condition that mentions a declared prop. -/
def Tests (props : List String) : Enclosure → Prop
  | markup => False
  | guard condition _ => Mentions.ofCondition props condition ≠ []

instance (props : List String) : DecidablePred (Tests props)
  | markup => inferInstanceAs (Decidable False)
  | guard _ _ => inferInstanceAs (Decidable (_ ≠ _))

/-- Whether it is markup. -/
def isMarkup : Enclosure → Bool
  | markup => true
  | guard _ _ => false

end Enclosure

namespace Gate

variable {props : List String} {around before after : List Enclosure} {x : Enclosure}

/-- What tests no prop only adds to the markup that is passed. -/
theorem collect_before (h : ∀ y ∈ before, ¬ y.Tests props) (inMarkup : Bool) :
    collect props inMarkup none (before ++ after) =
      collect props (inMarkup || before.any Enclosure.isMarkup) none after := by
  induction before generalizing inMarkup with
  | nil => rw [List.nil_append, List.any_nil, Bool.or_false]
  | cons y before ih =>
      have hrest := ih fun z hz => h z (List.mem_cons_of_mem y hz)
      cases y with
      | markup =>
          rw [List.cons_append, collect, hrest, List.any_cons, Enclosure.isMarkup, Bool.true_or,
            Bool.or_true]
      | guard condition truthy =>
          have hnone : Mentions.ofCondition props condition = [] :=
            not_not.mp (h _ List.mem_cons_self)
          rw [List.cons_append, collect, hnone, if_pos List.isEmpty_nil, hrest, List.any_cons,
            Enclosure.isMarkup, Bool.false_or]

theorem isRoot_addAll (g : Gate) (truthy : Bool) (mentions : List (String × Bool)) :
    (g.addAll truthy mentions).isRoot = g.isRoot := by
  induction mentions generalizing g with
  | nil => rfl
  | cons e mentions ih =>
      have hadd : (g.add e.1 (truthy != e.2)).isRoot = g.isRoot := by
        unfold add
        split
        · rfl
        · split <;> rfl
      exact (ih _).trans hadd

/-- Once there is a gate, it keeps the place where it began. -/
theorem exists_collect (props : List String) (g : Gate) (inMarkup : Bool)
    (around : List Enclosure) :
    ∃ g', collect props inMarkup (some g) around = some g' ∧ g'.isRoot = g.isRoot := by
  induction around generalizing g inMarkup with
  | nil => exact ⟨g, rfl, rfl⟩
  | cons x around ih =>
      cases x with
      | markup => exact ih g true
      | guard condition truthy =>
          rw [collect]
          split
          · exact ih g inMarkup
          · obtain ⟨g', hg', hroot⟩ := ih (g.addAll truthy (Mentions.ofCondition props condition))
              inMarkup
            exact ⟨g', hg', hroot.trans (isRoot_addAll _ _ _)⟩

/-- The gate begins at the innermost condition that mentions a prop. -/
theorem exists_of_split (hx : x.Tests props) (hbefore : ∀ y ∈ before, ¬ y.Tests props)
    (after : List Enclosure) :
    ∃ g, ofEnclosures props (before ++ x :: after) = some g ∧
      g.isRoot = !before.any Enclosure.isMarkup := by
  cases x with
  | markup => exact absurd hx id
  | guard condition truthy =>
      have hne : ¬ (Mentions.ofCondition props condition).isEmpty = true :=
        mt List.isEmpty_iff.mp hx
      rw [ofEnclosures, collect_before hbefore, Bool.false_or, collect, if_neg hne,
        Option.getD_none]
      obtain ⟨g, hg, hroot⟩ := exists_collect props
        (addAll ⟨[], [], !before.any Enclosure.isMarkup⟩ truthy
          (Mentions.ofCondition props condition)) (before.any Enclosure.isMarkup) after
      exact ⟨g, hg, hroot.trans (isRoot_addAll _ _ _)⟩

theorem ofEnclosures_eq_none (h : ∀ y ∈ around, ¬ y.Tests props) :
    ofEnclosures props around = none := by
  have hall : collect props false none (around ++ []) = none := collect_before h false
  rwa [List.append_nil] at hall

/-- The innermost condition that mentions a prop. -/
theorem exists_innermost (h : ∃ x ∈ around, x.Tests props) : ∃ before x after,
    around = before ++ x :: after ∧ x.Tests props ∧ ∀ y ∈ before, ¬ y.Tests props := by
  obtain ⟨x, hx⟩ : ∃ x, around.find? (fun x => decide (x.Tests props)) = some x := by
    obtain ⟨y, hy, htests⟩ := h
    exact Option.isSome_iff_exists.mp (List.find?_isSome.mpr ⟨y, hy, decide_eq_true htests⟩)
  obtain ⟨htests, before, after, hsplit, hbefore⟩ := List.find?_eq_some_iff_append.mp hx
  refine ⟨before, x, after, hsplit, of_decide_eq_true htests, fun y hy => ?_⟩
  simpa using hbefore y hy

end Gate

/-! ### Places of conditions -/

namespace Enclosure

variable {parent child : Tree}

theorem guard?_ne_markup : guard? parent child ≠ some markup := by
  unfold guard?
  intro h
  split at h
  · obtain ⟨op, -, h⟩ := Option.bind_eq_some_iff.mp h
    obtain ⟨left, -, h⟩ := Option.bind_eq_some_iff.mp h
    split_ifs at h <;> cases h
  · obtain ⟨condition, -, h⟩ := Option.bind_eq_some_iff.mp h
    split at h <;> cases h
  · obtain ⟨condition, -, h⟩ := Option.bind_eq_some_iff.mp h
    split at h <;> cases h
  · cases h

theorem guard?_of_isElement (h : isElement parent = true) : guard? parent child = none := by
  simp only [isElement, Bool.or_eq_true, decide_eq_true_eq] at h
  unfold guard?
  rcases h with h | h <;> rw [h]

theorem between_eq_markup_iff : between parent child = some markup ↔
    isElement parent = true ∧ (tagName? parent).isSome = true := by
  rw [between, ← Bool.and_eq_true]
  split
  · next h => simp [h]
  · next h => exact iff_of_false guard?_ne_markup h

theorem between_eq_guard_iff {condition : Tree} {truthy : Bool} :
    between parent child = some (guard condition truthy) ↔
      guard? parent child = some (guard condition truthy) := by
  rw [between]
  split
  · next h =>
    rw [Bool.and_eq_true] at h
    rw [guard?_of_isElement h.1]
    exact iff_of_false (fun h => nomatch h) (Option.some_ne_none _).symm
  · rfl

end Enclosure

namespace Tree

/-- Whether a named element stands at a place. -/
def NamedAt (t : Tree) (p : Place) : Prop :=
  ∃ e, t.at? p = some e ∧ Enclosure.isElement e = true ∧ (Enclosure.tagName? e).isSome = true

/-- Whether the node at a place renders a place below it under a condition that mentions a declared
prop. -/
def Guards (props : List String) (t : Tree) (p q : Place) : Prop :=
  ∃ i r parent child condition truthy, q = p ++ i :: r ∧ t.at? p = some parent ∧
    parent.children[i]? = some child ∧
    Enclosure.guard? parent child = some (.guard condition truthy) ∧
    Mentions.ofCondition props condition ≠ []

/-- Whether no named element stands between a place and the innermost condition above it that mentions
a declared prop. -/
def HeadsSide (props : List String) (t : Tree) (q : Place) : Prop :=
  ∃ p, t.Guards props p q ∧ (∀ p', t.Guards props p' q → p'.length ≤ p.length) ∧
    ∀ p', p <+: p' → p' <+: q → p' ≠ p → p' ≠ q → ¬ t.NamedAt p'

section guards
variable {props : List String} {t e parent child : Tree} {i : Nat} {p q r : Place}

theorem mem_aroundAt (hq : t.at? q = some e) {x : Enclosure} : x ∈ t.aroundAt q ↔
    ∃ p i r parent child, q = p ++ i :: r ∧ t.at? p = some parent ∧
      parent.children[i]? = some child ∧ Enclosure.between parent child = some x := by
  constructor
  · intro h
    obtain ⟨before, after, hsplit⟩ := List.append_of_mem h
    obtain ⟨p, i, r, parent, child, hpq, hp, hc, hb, -⟩ := exists_split hq hsplit
    exact ⟨p, i, r, parent, child, hpq, hp, hc, hb⟩
  · rintro ⟨p, i, r, parent, child, rfl, hp, hc, hb⟩
    rw [aroundAt_append hp hc, hb]
    exact List.mem_append_right _ (List.mem_append_left _ (Option.mem_toList.mpr rfl))

theorem exists_tests_iff (hq : t.at? q = some e) :
    (∃ x ∈ t.aroundAt q, x.Tests props) ↔ ∃ p, t.Guards props p q := by
  constructor
  · rintro ⟨x, hx, htests⟩
    obtain ⟨p, i, r, parent, child, hpq, hp, hc, hb⟩ := (mem_aroundAt hq).mp hx
    cases x with
    | markup => exact absurd htests id
    | guard condition truthy =>
        exact ⟨p, i, r, parent, child, condition, truthy, hpq, hp, hc,
          Enclosure.between_eq_guard_iff.mp hb, htests⟩
  · rintro ⟨p, i, r, parent, child, condition, truthy, hpq, hp, hc, hguard, htests⟩
    exact ⟨.guard condition truthy, (mem_aroundAt hq).mpr
      ⟨p, i, r, parent, child, hpq, hp, hc, Enclosure.between_eq_guard_iff.mpr hguard⟩, htests⟩

/-- A way that goes on leads through a child. -/
theorem exists_child_of_at? (h : t.at? (p ++ i :: r) = some e) : ∃ parent child,
    t.at? p = some parent ∧ parent.children[i]? = some child ∧ child.kind ≠ .mark ∧
      child.at? r = some e := by
  rw [at?_append] at h
  obtain ⟨parent, hp, h⟩ := Option.bind_eq_some_iff.mp h
  obtain ⟨child, hc, hm, h⟩ := at?_cons.mp h
  exact ⟨parent, child, hp, hc, hm, h⟩

theorem any_isMarkup_iff (hq : t.at? q = some e) :
    (t.aroundAt q).any Enclosure.isMarkup = true ↔ ∃ p, p <+: q ∧ p ≠ q ∧ t.NamedAt p := by
  rw [List.any_eq_true]
  constructor
  · rintro ⟨x, hx, hmarkup⟩
    obtain ⟨p, i, r, parent, child, rfl, hp, hc, hb⟩ := (mem_aroundAt hq).mp hx
    cases x with
    | guard _ _ => cases hmarkup
    | markup =>
        exact ⟨p, List.prefix_append _ _, by simp, parent, hp,
          Enclosure.between_eq_markup_iff.mp hb⟩
  · rintro ⟨p, ⟨more, rfl⟩, hne, parent, hp, hnamed⟩
    cases more with
    | nil => exact absurd (List.append_nil p).symm hne
    | cons i r =>
        obtain ⟨parent', child, hp', hc, -, -⟩ := exists_child_of_at? hq
        cases hp.symm.trans hp'
        exact ⟨.markup, (mem_aroundAt hq).mpr ⟨p, i, r, parent, child, rfl, hp, hc,
          Enclosure.between_eq_markup_iff.mpr hnamed⟩, rfl⟩

/-- What stands at a place below a child stands there in the whole tree. -/
theorem at?_child (hp : t.at? p = some parent) (hc : parent.children[i]? = some child)
    (hm : child.kind ≠ .mark) (q : Place) : t.at? (p ++ i :: q) = child.at? q := by
  rw [at?_append, hp, Option.bind_some, at?, hc, Option.bind_some, if_neg hm]

theorem guards_child_iff (hp : t.at? p = some parent) (hc : parent.children[i]? = some child)
    (hm : child.kind ≠ .mark) {p' q : Place} :
    t.Guards props (p ++ i :: p') (p ++ i :: q) ↔ child.Guards props p' q := by
  unfold Guards
  simp only [at?_child hp hc hm, List.append_assoc, List.cons_append, List.append_cancel_left_eq,
    List.cons.injEq, true_and]

theorem namedAt_child_iff (hp : t.at? p = some parent) (hc : parent.children[i]? = some child)
    (hm : child.kind ≠ .mark) {p' : Place} : t.NamedAt (p ++ i :: p') ↔ child.NamedAt p' := by
  unfold NamedAt
  rw [at?_child hp hc hm]

/-- A place on the way that is longer than the way to a node leads through its child. -/
theorem exists_below {p' : Place} (h : p' <+: p ++ i :: r) (hlength : p.length < p'.length) :
    ∃ p'', p' = p ++ i :: p'' ∧ p'' <+: r := by
  obtain ⟨more, hmore⟩ :=
    List.prefix_of_prefix_length_le (List.prefix_append p (i :: r)) h (Nat.le_of_lt hlength)
  cases more with
  | nil =>
      rw [List.append_nil] at hmore
      rw [hmore] at hlength
      exact absurd hlength (Nat.lt_irrefl _)
  | cons j p'' =>
      rw [← hmore, List.prefix_append_right_inj, List.cons_prefix_cons] at h
      obtain ⟨rfl, h⟩ := h
      exact ⟨p'', hmore.symm, h⟩

theorem Guards.prefix {p' : Place} (h : t.Guards props p' q) : p' <+: q := by
  obtain ⟨i, r, _, _, _, _, rfl, -⟩ := h
  exact List.prefix_append _ _

end guards

end Tree

namespace Gate

open Trellis.Tree (Guards HeadsSide NamedAt)

variable {props : List String} {t e : Tree} {q : Tree.Place}

/-- An element has a gate if a condition above it mentions a declared prop. -/
theorem exists_iff (props : List String) (hq : t.at? q = some e) :
    (∃ g, ofEnclosures props (t.aroundAt q) = some g) ↔ ∃ p, t.Guards props p q := by
  rw [← Tree.exists_tests_iff hq]
  constructor
  · rintro ⟨g, hg⟩
    by_contra hnot
    rw [ofEnclosures_eq_none fun y hy htests => hnot ⟨y, hy, htests⟩] at hg
    cases hg
  · intro h
    obtain ⟨before, x, after, hsplit, hx, hbefore⟩ := exists_innermost h
    obtain ⟨g, hg, -⟩ := exists_of_split hx hbefore after
    exact ⟨g, hsplit ▸ hg⟩

/-- A gate is the root of its side if its element heads the side. -/
theorem isRoot_iff (props : List String) (hq : t.at? q = some e) {g : Gate}
    (hg : ofEnclosures props (t.aroundAt q) = some g) : g.isRoot = true ↔ t.HeadsSide props q := by
  obtain ⟨before, x, after, hsplit, hx, hbefore⟩ :=
    exists_innermost ((Tree.exists_tests_iff hq).mpr ((exists_iff props hq).mp ⟨g, hg⟩))
  obtain ⟨g', hg', hroot⟩ := exists_of_split hx hbefore after
  rw [← hsplit, hg, Option.some.injEq] at hg'
  subst hg'
  obtain ⟨p, i, r, parent, child, rfl, hp, hc, hb, rfl⟩ := Tree.exists_split hq hsplit
  obtain ⟨parent', child', hp', hc', hm, hr⟩ := Tree.exists_child_of_at? hq
  cases hp.symm.trans hp'
  cases hc.symm.trans hc'
  have hguards : t.Guards props p (p ++ i :: r) := by
    cases x with
    | markup => exact absurd hx id
    | guard condition truthy =>
        exact ⟨i, r, parent, child, condition, truthy, rfl, hp, hc,
          Enclosure.between_eq_guard_iff.mp hb, hx⟩
  -- No condition below this one mentions a prop, so it is the innermost one.
  have hinnermost (p' : Tree.Place) (h : t.Guards props p' (p ++ i :: r)) :
      p'.length ≤ p.length := by
    by_contra hlength
    obtain ⟨p'', rfl, -⟩ := Tree.exists_below h.prefix (Nat.not_le.mp hlength)
    rw [Tree.guards_child_iff hp hc hm] at h
    obtain ⟨y, hy, htests⟩ := (Tree.exists_tests_iff hr).mpr ⟨p'', h⟩
    exact hbefore y hy htests
  rw [hroot, Bool.not_eq_true', ← Bool.not_eq_true, Tree.any_isMarkup_iff hr]
  constructor
  · intro hnone
    refine ⟨p, hguards, hinnermost, fun p' hpp' hp'q hne hne' hnamed => hnone ?_⟩
    have hlength : p.length < p'.length :=
      Nat.lt_of_le_of_ne hpp'.length_le fun heq => hne (hpp'.eq_of_length heq).symm
    obtain ⟨p'', rfl, hp''⟩ := Tree.exists_below hp'q hlength
    exact ⟨p'', hp'', fun heq => hne' (by rw [heq]), (Tree.namedAt_child_iff hp hc hm).mp hnamed⟩
  · rintro ⟨p₀, hguards₀, hinnermost₀, hnone⟩ ⟨p'', hp'', hne, hnamed⟩
    have heq : p₀ = p := by
      refine (List.prefix_of_prefix_length_le hguards₀.prefix hguards.prefix
        (hinnermost p₀ hguards₀)).eq_of_length ?_
      exact Nat.le_antisymm (hinnermost p₀ hguards₀) (hinnermost₀ p hguards)
    subst heq
    refine hnone (p₀ ++ i :: p'') (List.prefix_append _ _) ?_ (by simp) ?_
      ((Tree.namedAt_child_iff hp hc hm).mpr hnamed)
    · exact (List.prefix_append_right_inj p₀).mpr (List.cons_prefix_cons.mpr ⟨rfl, hp''⟩)
    · exact fun h => hne (List.cons.inj (List.append_cancel_left h)).2

end Gate

/-! ### Records -/

namespace Markup

/-- The kind of a named element. -/
def kindOf? (t : Tree) : Option ElementKind :=
  (Enclosure.tagOf? t).bind fun tag =>
    (Enclosure.tagName? t).map fun name => ElementKind.classify name (Attributes.ofTag tag)

/-- Whether a record tells of an element. -/
structure Describes (t : Tree) (kind : ElementKind) (tag : String) (selector : Selector)
    (line : Nat) : Prop where
  /-- It tells what the element is for. -/
  hkind : kindOf? t = some kind
  /-- It tells the element's tag. -/
  htag : Enclosure.tagName? t = some tag
  /-- It tells how the element is found. -/
  hselector : ∃ openTag, Enclosure.tagOf? t = some openTag ∧
    selector = Selector.derive (Attributes.ofTag openTag)
      (if kind.isInput then none else staticText t) kind
  /-- It tells the element's line, counted from one. -/
  hline : line = t.line + 1

/-- What becomes of an element: it is recorded as always rendered, or under a gate, or it is passed. -/
inductive Scan.Outcome (props : List ComponentProp) (v : Visit) : Option Scan → Prop
  /-- An element that a user acts on, without a gate. -/
  | always {e : InteractiveElement} :
      Gate.ofEnclosures (props.map (·.name)) v.around = none → e.kind.isInteractive = true →
      Describes v.element e.kind e.tag e.selector e.line → Outcome props v (some (.always e))
  /-- An element that a user acts on or that is the root of a side, with a gate. -/
  | gated {e : ConditionalElement} {g : Gate} :
      Gate.ofEnclosures (props.map (·.name)) v.around = some g →
      e.kind.isInteractive = true ∨ g.isRoot = true →
      Describes v.element e.kind e.tag e.selector e.line → Outcome props v (some (.gated e))
  /-- An element without a name, or one that a user only sees. -/
  | passed : (∀ kind, kindOf? v.element = some kind → kind.isInteractive = false ∧
        ∀ g, Gate.ofEnclosures (props.map (·.name)) v.around = some g → g.isRoot = false) →
      Outcome props v none

theorem Scan.outcome (props : List ComponentProp) (v : Visit) :
    Outcome props v (ofVisit? props v) := by
  unfold ofVisit?
  cases htag : Enclosure.tagOf? v.element with
  | none =>
      refine .passed fun kind hkind => ?_
      rw [kindOf?, htag] at hkind
      cases hkind
  | some tag =>
      cases hname : Enclosure.tagName? v.element with
      | none =>
          refine .passed fun kind hkind => ?_
          rw [kindOf?, htag, hname] at hkind
          cases hkind
      | some name =>
          have hkind : kindOf? v.element =
              some (ElementKind.classify name (Attributes.ofTag tag)) := by
            rw [kindOf?, htag, hname]
            rfl
          have hdescribes := Describes.mk hkind hname ⟨tag, htag, rfl⟩ rfl
          simp only [Option.bind_eq_bind, Option.bind_some]
          split
          · next g hg =>
            split
            · next h => exact .gated hg (Bool.or_eq_true_iff.mp h) hdescribes
            · next h =>
              rw [Bool.or_eq_true, not_or, Bool.not_eq_true, Bool.not_eq_true] at h
              refine .passed fun kind hkind' => ?_
              cases hkind.symm.trans hkind'
              refine ⟨h.1, fun g' hg' => ?_⟩
              cases hg.symm.trans hg'
              exact h.2
          · next hg =>
            split
            · next h => exact .always hg h hdescribes
            · next h =>
              refine .passed fun kind hkind' => ?_
              cases hkind.symm.trans hkind'
              exact ⟨Bool.eq_false_iff.mpr h, fun g hg' => by rw [hg] at hg'; cases hg'⟩

/-- Whether some records are those of just the elements of a body with a property, one for each, in
the order of the source. -/
def Records {α : Type} (body : Tree) (P : Tree.Place → ElementKind → Prop) (S : Tree → α → Prop)
    (records : List α) : Prop :=
  ∃ places : List Tree.Place, places.Pairwise (· < ·) ∧
    (∀ q, q ∈ places ↔ ∃ t kind, body.at? q = some t ∧ Enclosure.isElement t = true ∧
      kindOf? t = some kind ∧ P q kind) ∧
    List.Forall₂ (fun q r => ∃ t, body.at? q = some t ∧ S t r) places records

theorem forall₂_filter {α β γ : Type} {R : α → β → Prop} {S : α → γ → Prop} {p : α → Bool}
    {f : β → Option γ} {as : List α} {bs : List β} (h : List.Forall₂ R as bs)
    (hf : ∀ a b, R a b → p a = true ∧ (∃ c, f b = some c ∧ S a c) ∨ p a = false ∧ f b = none) :
    List.Forall₂ S (as.filter p) (bs.filterMap f) := by
  induction h with
  | nil => exact .nil
  | @cons a b as bs hab _ ih =>
      rcases hf a b hab with ⟨ha, c, hb, hc⟩ | ⟨ha, hb⟩
      · rw [List.filter_cons_of_pos ha, List.filterMap_cons_some hb]
        exact .cons hc ih
      · rw [List.filter_cons_of_neg (Bool.eq_false_iff.mp ha), List.filterMap_cons_none hb]
        exact ih

/-- What is recorded at just the visits with a property. -/
theorem records_filterMap {α : Type} {body : Tree} {P : Tree.Place → ElementKind → Prop}
    {S : Tree → α → Prop} {f : Visit → Option α}
    (h : ∀ q v, v.IsAt body [] q →
      (∃ kind a, kindOf? v.element = some kind ∧ P q kind ∧ f v = some a ∧ S v.element a) ∨
      (∀ kind, kindOf? v.element = some kind → ¬ P q kind) ∧ f v = none) :
    Records body P S ((visits [] body).filterMap f) := by
  classical
  let isRecorded (q : Tree.Place) : Bool := decide (∃ t kind, body.at? q = some t ∧
    kindOf? t = some kind ∧ P q kind)
  refine ⟨body.elementPlaces.filter isRecorded, body.pairwise_elementPlaces.filter _, fun q => ?_,
    forall₂_filter (visits_places body []) fun q v hv => ?_⟩
  · rw [List.mem_filter, Tree.mem_elementPlaces, decide_eq_true_eq]
    constructor
    · rintro ⟨⟨t, ht, helement⟩, t', kind, ht', hkind, hP⟩
      cases ht.symm.trans ht'
      exact ⟨t, kind, ht, helement, hkind, hP⟩
    · rintro ⟨t, kind, ht, helement, hkind, hP⟩
      exact ⟨⟨t, ht, helement⟩, t, kind, ht, hkind, hP⟩
  · rcases h q v hv with ⟨kind, a, hkind, hP, ha, hS⟩ | ⟨hnot, hnone⟩
    · exact .inl ⟨decide_eq_true ⟨v.element, kind, hv.1, hkind, hP⟩, a, ha, v.element, hv.1, hS⟩
    · refine .inr ⟨decide_eq_false ?_, hnone⟩
      rintro ⟨t, kind, ht, hkind, hP⟩
      cases hv.1.symm.trans ht
      exact hnot kind hkind hP

end Markup

/-! ### Contracts -/

namespace Candidate

open Markup (Records Describes)

/-- Whether a contract records the elements of a body exactly. -/
structure ScansExactly (body : Tree) (props : List ComponentProp) (c : Component) : Prop where
  /-- All elements are counted, those without a name included. -/
  count : ∃ places : List Tree.Place, places.Pairwise (· < ·) ∧
    (∀ q, q ∈ places ↔ ∃ t, body.at? q = some t ∧ Enclosure.isElement t = true) ∧
    c.markupCount = places.length
  /-- An element that a user acts on is always rendered if no condition above it mentions a prop. -/
  interactive : Records body
    (fun q kind => kind.isInteractive = true ∧ ¬ ∃ p, body.Guards (props.map (·.name)) p q)
    (fun t (e : InteractiveElement) => Describes t e.kind e.tag e.selector e.line) c.interactive
  /-- Under such a condition all elements that a user acts on are recorded, and of the others those
  that head the side of the innermost one. -/
  conditional : Records body
    (fun q kind => (∃ p, body.Guards (props.map (·.name)) p q) ∧
      (kind.isInteractive = true ∨ body.HeadsSide (props.map (·.name)) q))
    (fun t (e : ConditionalElement) => Describes t e.kind e.tag e.selector e.line) c.conditional

variable {body : Tree} {props : List ComponentProp}

theorem records_always : Records body
    (fun q kind => kind.isInteractive = true ∧ ¬ ∃ p, body.Guards (props.map (·.name)) p q)
    (fun t (e : InteractiveElement) => Describes t e.kind e.tag e.selector e.line)
    ((Markup.visits [] body).filterMap fun v =>
      (Markup.Scan.ofVisit? props v).bind Markup.Scan.always?) := by
  refine Markup.records_filterMap fun q v hv => ?_
  have haround : v.around = body.aroundAt q := hv.2.trans (List.append_nil _)
  have hgate := Gate.exists_iff (props.map (·.name)) hv.1
  rw [← haround] at hgate
  have houtcome := Markup.Scan.outcome props v
  generalize Markup.Scan.ofVisit? props v = scan at houtcome
  cases houtcome with
  | @always e hg hkind hdescribes =>
      refine .inl ⟨e.kind, e, hdescribes.hkind, ⟨hkind, fun hp => ?_⟩, rfl, hdescribes⟩
      obtain ⟨g, hg'⟩ := hgate.mpr hp
      rw [hg] at hg'
      cases hg'
  | @gated e g hg hor hdescribes =>
      exact .inr ⟨fun kind hkind hP => hP.2 (hgate.mp ⟨g, hg⟩), rfl⟩
  | passed hnone =>
      refine .inr ⟨fun kind hkind hP => ?_, rfl⟩
      rw [(hnone kind hkind).1] at hP
      exact Bool.false_ne_true hP.1

theorem records_gated : Records body
    (fun q kind => (∃ p, body.Guards (props.map (·.name)) p q) ∧
      (kind.isInteractive = true ∨ body.HeadsSide (props.map (·.name)) q))
    (fun t (e : ConditionalElement) => Describes t e.kind e.tag e.selector e.line)
    ((Markup.visits [] body).filterMap fun v =>
      (Markup.Scan.ofVisit? props v).bind Markup.Scan.gated?) := by
  refine Markup.records_filterMap fun q v hv => ?_
  have haround : v.around = body.aroundAt q := hv.2.trans (List.append_nil _)
  have hgate := Gate.exists_iff (props.map (·.name)) hv.1
  have hroot {g : Gate} := Gate.isRoot_iff (props.map (·.name)) hv.1 (g := g)
  rw [← haround] at hgate hroot
  have houtcome := Markup.Scan.outcome props v
  generalize Markup.Scan.ofVisit? props v = scan at houtcome
  cases houtcome with
  | @always e hg hkind hdescribes =>
      refine .inr ⟨fun kind _ hP => ?_, rfl⟩
      obtain ⟨g, hg'⟩ := hgate.mpr hP.1
      rw [hg] at hg'
      cases hg'
  | @gated e g hg hor hdescribes =>
      exact .inl ⟨e.kind, e, hdescribes.hkind, ⟨hgate.mp ⟨g, hg⟩, hor.imp_right (hroot hg).mp⟩, rfl,
        hdescribes⟩
  | passed hnone =>
      refine .inr ⟨fun kind hkind hP => ?_, rfl⟩
      obtain ⟨hseen, hg⟩ := hnone kind hkind
      obtain ⟨g, hg'⟩ := hgate.mpr hP.1
      rcases hP.2 with h | h
      · rw [hseen] at h
        cases h
      · rw [← hroot hg', hg g hg'] at h
        cases h

/-- A candidate is a component if its body has elements, and its contract records them exactly. -/
theorem scan_exact {c : Candidate} (hbody : c.function.part? .body = some body) (kind : ExportKind)
    (exported : String) (props : List ComponentProp) :
    (c.component? kind exported props = none ↔
      ∀ q t, body.at? q = some t → Enclosure.isElement t = false) ∧
    ∀ x, c.component? kind exported props = some x → ScansExactly body props x := by
  have hvisits : c.visits = Markup.visits [] body := by rw [visits, hbody, Option.elim_some]
  have hlength : c.visits.length = body.elementPlaces.length := by
    rw [hvisits, (Markup.visits_places body []).length_eq]
  have hempty : c.visits.isEmpty = true ↔
      ∀ q t, body.at? q = some t → Enclosure.isElement t = false := by
    rw [List.isEmpty_iff, ← List.length_eq_zero_iff, hlength, List.length_eq_zero_iff,
      List.eq_nil_iff_forall_not_mem]
    simp only [Tree.mem_elementPlaces, not_exists, not_and, Bool.not_eq_true]
  rw [component?]
  constructor
  · rw [← hempty]
    split
    · next h => exact iff_of_true rfl h
    · next h => exact iff_of_false (Option.some_ne_none _) h
  · intro x hx
    split at hx
    · cases hx
    · cases hx
      refine ⟨⟨body.elementPlaces, body.pairwise_elementPlaces, fun q => Tree.mem_elementPlaces,
        hlength⟩, ?_, ?_⟩
      · dsimp only
        rw [hvisits, List.filterMap_filterMap]
        exact records_always
      · dsimp only
        rw [hvisits, List.filterMap_filterMap]
        exact records_gated

/-- The panel's paragraph heads a side, and its button is acted on below the paragraph. -/
theorem scan_exact_panel : ∃ c ∈ panel, ∃ body, c.function.part? .body = some body ∧
    ∃ x, c.component? .named "Panel" panelProps = some x ∧ ScansExactly body panelProps x ∧
      x.markupCount = 2 ∧ x.interactive = [] ∧ x.conditional.map (·.tag) = ["p", "button"] := by
  have h : ∃ c ∈ panel, (c.function.part? .body).isSome = true ∧
      (c.component? .named "Panel" panelProps).any (fun x => x.markupCount = 2 ∧
        x.interactive = [] ∧ x.conditional.map (·.tag) = ["p", "button"]) = true := by
    decide +kernel
  obtain ⟨c, hc, hbody, hx⟩ := h
  obtain ⟨body, hbody⟩ := Option.isSome_iff_exists.mp hbody
  obtain ⟨x, hx, hrecorded⟩ := (Option.any_eq_true _ _).mp hx
  exact ⟨c, hc, body, hbody, x, hx, (scan_exact hbody .named "Panel" panelProps).2 x hx,
    of_decide_eq_true hrecorded⟩

end Candidate

end Trellis
