import Mathlib.Data.List.Induction
import Trellis.Proofs.Text.Words
import Trellis.Selector.Derive

/-! # Which locator an element gets

An element is found by the first locator that it offers. What it offers depends on the last insertion
under each of a few names only.

* `Attributes.lastValue?` is the value that was inserted last under a name, and `Attributes.Says` that
  it is a static text which is not blank. `Attributes.text_ofList_eq_some_iff`: this is what a list of
  attributes tells.
* `Selector.Offers` lists the locators of an element, each with its condition, and
  `Selector.IsFirstOffer` says that a selector is the first of them.
* `Selector.derives`: the selector of an element is its first locator. It is a text without blanks
  around it whenever the element's role is one, and it stays when insertions under different names
  change places. -/

namespace Trellis

/-! ### Trimmed texts -/

namespace Text

open Blank

theorem Blank.tight_trim (s : List Char) : Tight (trim s) where
  head c hc := by
    -- What is cut off at the end leaves the beginning as it was.
    have hprefix : trim s <+: trimStart s := by
      rw [trim, trimEnd_eq, ← List.reverse_suffix, List.reverse_reverse]
      exact List.dropWhile_suffix _
    obtain ⟨rest, hrest⟩ := hprefix
    refine startsTight_trimStart s c ?_
    rw [← hrest]
    exact List.mem_head?_append_of_mem_head? hc
  last c hc := by
    rw [trim, trimEnd_eq, List.getLast?_reverse] at hc
    exact startsTight_trimStart _ c hc

theorem Blank.trim_eq_nil_iff {s : List Char} : trim s = [] ↔ IsGap s := by
  rw [trim, trimEnd_eq, List.reverse_eq_nil_iff]
  have hgap {s : List Char} : trimStart s = [] ↔ IsGap s :=
    ⟨fun h => isGap_trimStart.mp (h ▸ IsGap.nil), trimStart_of_isGap⟩
  rw [hgap, isGap_reverse, isGap_trimStart]

/-- Whether a text is not empty and has no blanks around it. -/
def IsTrimmed (v : String) : Prop := v ≠ "" ∧ Tight v.toList

/-- Whether a text is another one without the blanks around it, and something is left. -/
def TrimsTo (s v : String) : Prop :=
  IsTrimmed v ∧ ∃ gap gap', IsGap gap ∧ IsGap gap' ∧ s.toList = gap ++ (v.toList ++ gap')

/-- Whether a text shows as another one: its words with single spaces between them, and there are
some. -/
def ShowsAs (s v : String) : Prop :=
  words s.toList ≠ [] ∧ v.toList = joined (words s.toList)

section trimmed
variable {s v : String}

theorem isBlankText_iff : isBlankText s = true ↔ IsGap s.toList := List.all_eq_true

theorem trimsTo_iff : TrimsTo s v ↔ isBlankText s = false ∧ v = trim s := by
  constructor
  · rintro ⟨⟨hne, htight⟩, gap, gap', hgap, hgap', hs⟩
    have htrim : Blank.trim s.toList = v.toList := by rw [hs, trim_between hgap htight hgap']
    refine ⟨Bool.eq_false_iff.mpr fun hblank => hne ?_, ?_⟩
    · rw [← String.toList_eq_nil_iff, ← htrim]
      exact trim_eq_nil_iff.mpr (isBlankText_iff.mp hblank)
    · rw [trim, htrim, String.ofList_toList]
  · rintro ⟨hblank, rfl⟩
    obtain ⟨gap, gap', hgap, hgap', hs⟩ := exists_between s.toList
    have htrim : (trim s).toList = Blank.trim s.toList := String.toList_ofList
    refine ⟨⟨fun hempty => ?_, ?_⟩, gap, gap', hgap, hgap', ?_⟩
    · rw [← String.toList_eq_nil_iff, htrim, trim_eq_nil_iff, ← isBlankText_iff, hblank] at hempty
      cases hempty
    · rw [htrim]
      exact tight_trim _
    · rw [htrim]
      exact hs

theorem showsAs_iff : ShowsAs s v ↔ v = collapse s ∧ v ≠ "" := by
  have hcollapse : (collapse s).toList = joined (words s.toList) := by
    rw [collapse_eq_joined, String.toList_ofList]
  have hempty : collapse s = "" ↔ words s.toList = [] := by
    rw [← String.toList_eq_nil_iff, hcollapse]
    refine ⟨fun h => ?_, fun h => by rw [h]; rfl⟩
    have hwords := words_joined [s.toList]
    rw [List.flatMap_singleton, h] at hwords
    exact hwords.symm
  rw [ShowsAs, ← hcollapse, String.toList_inj]
  constructor
  · rintro ⟨hwords, rfl⟩
    exact ⟨rfl, mt hempty.mp hwords⟩
  · rintro ⟨rfl, hne⟩
    exact ⟨mt hempty.mpr hne, rfl⟩

theorem ShowsAs.isTrimmed (h : ShowsAs s v) : IsTrimmed v := by
  obtain ⟨rfl, hne⟩ := showsAs_iff.mp h
  refine ⟨hne, ?_⟩
  rw [collapse_eq, String.toList_ofList]
  exact tight_trim _

end trimmed

end Text

/-! ### Insertions -/

namespace Attributes

variable {inserted inserted' : List (String × AttributeValue)} {name v : String}

/-- The value that was inserted last under a name. -/
def lastValue? (inserted : List (String × AttributeValue)) (name : String) :
    Option AttributeValue :=
  (inserted.reverse.find? (·.1 = name)).map Prod.snd

/-- Whether the last insertion under a name is a static text, without the blanks around it. -/
def Says (inserted : List (String × AttributeValue)) (name v : String) : Prop :=
  ∃ s, lastValue? inserted name = some (.text s) ∧ Text.TrimsTo s v

theorem lastValue?_concat (inserted : List (String × AttributeValue)) (e : String × AttributeValue)
    (name : String) : lastValue? (inserted ++ [e]) name =
      if e.1 = name then some e.2 else lastValue? inserted name := by
  rw [lastValue?, List.reverse_concat, List.find?_cons]
  by_cases h : e.1 = name <;> simp [lastValue?, h]

theorem ofList_concat (inserted : List (String × AttributeValue)) (e : String × AttributeValue) :
    ofList (inserted ++ [e]) = (ofList inserted).insert e.1 e.2 := by
  rw [ofList, List.foldl_concat, ofList]

/-- A list of attributes holds what was inserted last. -/
theorem get?_ofList (inserted : List (String × AttributeValue)) (name : String) :
    (ofList inserted).get? name = lastValue? inserted name := by
  induction inserted using List.reverseRecOn with
  | nil => rfl
  | append_singleton inserted e ih =>
      rw [ofList_concat, lastValue?_concat]
      by_cases h : e.1 = name
      · rw [if_pos h, ← h, get?_insert_self]
      · rw [if_neg h, get?_insert_of_ne _ (Ne.symm h), ih]

theorem text_ofList_eq_some_iff :
    (ofList inserted).text name = some v ↔ Says inserted name v := by
  unfold text Says
  rw [get?_ofList]
  cases lastValue? inserted name with
  | none => simp
  | some value =>
      cases value with
      | text s =>
          simp only [Option.some.injEq, AttributeValue.text.injEq, exists_eq_left',
            Text.trimsTo_iff]
          cases Text.isBlankText s <;> simp [eq_comm]
      | flag b => simp
      | expression s => simp

theorem text_ofList_eq_none_iff :
    (ofList inserted).text name = none ↔ ∀ v, ¬ Says inserted name v := by
  simp only [← text_ofList_eq_some_iff, Option.eq_none_iff_forall_ne_some, ne_eq]

/-- Whether two lists have the same insertions under each name, in the same order. -/
def Rearranges (inserted inserted' : List (String × AttributeValue)) : Prop :=
  ∀ name, inserted.filter (·.1 = name) = inserted'.filter (·.1 = name)

/-- Neighbours under different names may change places. -/
theorem Rearranges.swap {e e' : String × AttributeValue} (h : e.1 ≠ e'.1)
    (before after : List (String × AttributeValue)) :
    Rearranges (before ++ e :: e' :: after) (before ++ e' :: e :: after) := by
  intro name
  rw [List.filter_append, List.filter_append]
  refine congrArg _ ?_
  by_cases he : e.1 = name
  · have he' : ¬ e'.1 = name := fun heq => h (he.trans heq.symm)
    simp [he, he']
  · simp [List.filter_cons, he]

theorem Rearranges.lastValue?_eq (h : Rearranges inserted inserted') :
    lastValue? inserted = lastValue? inserted' := by
  funext name
  rw [lastValue?, lastValue?, ← List.head?_filter, ← List.head?_filter, List.filter_reverse,
    List.filter_reverse, h name]

theorem Rearranges.text_ofList (h : Rearranges inserted inserted') :
    (ofList inserted').text = (ofList inserted).text := by
  funext name
  rw [text, text, get?_ofList, get?_ofList, h.lastValue?_eq]

end Attributes

/-! ### Roles -/

/-- Whether an element that is neither pressed nor filled in has a role without blanks around it, if
it has one. -/
def ElementKind.HasTrimmedRole (kind : ElementKind) : Prop :=
  ∀ role, kind = .other (some role) → Text.IsTrimmed role

section roles
variable {kind : ElementKind}

theorem Text.isTrimmed_of_check {v : String}
    (h : (v.toList.head?.any (! Text.isBlank ·) && v.toList.getLast?.any (! Text.isBlank ·)) = true) :
    Text.IsTrimmed v := by
  obtain ⟨hhead, hlast⟩ := Bool.and_eq_true_iff.mp h
  refine ⟨fun hempty => ?_, fun c hc => ?_, fun c hc => ?_⟩
  · rw [hempty] at hhead
    cases hhead
  · rw [hc] at hhead
    simpa using hhead
  · rw [hc] at hlast
    simpa using hlast

theorem isTrimmed_of_inputRole {type : Option String} {role : String}
    (h : inputRole type = some role) : Text.IsTrimmed role := by
  unfold inputRole at h
  split at h <;> cases h <;> exact Text.isTrimmed_of_check (by decide)

theorem isTrimmed_of_implicitRole {tag : String} {type : Option String} {role : String}
    (h : implicitRole tag type = some role) : Text.IsTrimmed role := by
  unfold implicitRole at h
  split at h
  all_goals first
    | exact isTrimmed_of_inputRole h
    | cases h <;> exact Text.isTrimmed_of_check (by decide)

/-- The implicit roles of tags have no blanks around them. -/
theorem ElementKind.hasTrimmedRole_classify (tag : String) (attributes : Attributes) :
    (classify tag attributes).HasTrimmedRole := by
  intro role h
  unfold classify at h
  split at h
  · cases h
  · unfold ofTag at h
    split at h
    · cases h
    · unfold ofInputType at h
      split at h
      all_goals first
        | cases h
        | split at h
          · exact isTrimmed_of_inputRole (ElementKind.other.inj h)
          · cases h
    · cases h
    · cases h
    · exact isTrimmed_of_implicitRole (ElementKind.other.inj h)

theorem ElementKind.HasTrimmedRole.isTrimmed_defaultRole (h : kind.HasTrimmedRole) :
    Text.IsTrimmed kind.defaultRole := by
  cases kind with
  | button => exact Text.isTrimmed_of_check (by decide)
  | input input => cases input <;> exact Text.isTrimmed_of_check (by decide)
  | other role =>
      cases role with
      | none => exact Text.isTrimmed_of_check (by decide)
      | some role => exact h role rfl

end roles

/-! ### Locators -/

/-- The place of a strategy in the order of preference. -/
def Strategy.rank : Strategy → Nat
  | testId => 0
  | accessibleLabel => 1
  | visibleText => 2
  | placeholder => 3
  | structuralRole => 4

theorem Strategy.eq_of_rank {x y : Strategy} (h : x.rank = y.rank) : x = y := by
  cases x <;> cases y <;> first | rfl | cases h

namespace Selector

/-- The locators that an element offers, by what was inserted last into its attributes, its text and
its kind. -/
inductive Offers (inserted : List (String × AttributeValue)) (text : Option String)
    (kind : ElementKind) : Strategy → String → Prop
  /-- A test id. -/
  | testId {v : String} : Attributes.Says inserted "data-testid" v →
      Offers inserted text kind .testId v
  /-- A label. -/
  | accessibleLabel {v : String} : Attributes.Says inserted "aria-label" v →
      Offers inserted text kind .accessibleLabel v
  /-- The text of an element that is not filled in. -/
  | visibleText {s v : String} : kind.isInput = false → text = some s → Text.ShowsAs s v →
      Offers inserted text kind .visibleText v
  /-- The placeholder of one that is. -/
  | placeholder {v : String} : kind.isInput = true → Attributes.Says inserted "placeholder" v →
      Offers inserted text kind .placeholder v
  /-- A role that is given. -/
  | role {v : String} : Attributes.Says inserted "role" v →
      Offers inserted text kind .structuralRole v
  /-- The role that comes with the kind. -/
  | defaultRole : (∀ v, ¬ Attributes.Says inserted "role" v) →
      Offers inserted text kind .structuralRole kind.defaultRole

/-- How a selector is the first locator that an element offers. -/
structure IsFirstOffer (inserted : List (String × AttributeValue)) (text : Option String)
    (kind : ElementKind) (s : Selector) : Prop where
  /-- The element offers it. -/
  offered : Offers inserted text kind s.strategy s.value
  /-- Of this strategy it offers nothing else, and all else that it offers comes later. -/
  first : ∀ strategy v, Offers inserted text kind strategy v →
    strategy = s.strategy ∧ v = s.value ∨ s.strategy.rank < strategy.rank
  /-- A selector by role names the role, and no other does. -/
  role : s.role = if s.strategy = .structuralRole then some s.value else none
  /-- It has no blanks around it if the role of the element has none. -/
  trimmed : kind.HasTrimmedRole → Text.IsTrimmed s.value

section derive
variable {inserted : List (String × AttributeValue)} {text : Option String} {kind : ElementKind}
  {strategy : Strategy} {v : String}

/-- What would be looked for by a strategy. -/
def offer? (attributes : Attributes) (text : Option String) (kind : ElementKind) :
    Strategy → Option String
  | .testId => attributes.text "data-testid"
  | .accessibleLabel => attributes.text "aria-label"
  | .visibleText => usableText kind text
  | .placeholder => usablePlaceholder kind attributes
  | .structuralRole => some ((attributes.text "role").getD kind.defaultRole)

theorem usableText_eq_some_iff : usableText kind text = some v ↔
    kind.isInput = false ∧ ∃ s, text = some s ∧ Text.ShowsAs s v := by
  unfold usableText
  cases kind.isInput with
  | true => simp
  | false =>
      cases text with
      | none => simp
      | some s =>
          simp only [Text.showsAs_iff, Option.map_some, Option.some.injEq, exists_eq_left', true_and]
          by_cases hempty : Text.collapse s = ""
          · rw [hempty]
            exact iff_of_false (by simp) fun h => h.2 h.1
          · have hfilter : (some (Text.collapse s)).filter (· ≠ "") = some (Text.collapse s) := by
              simp [hempty]
            rw [if_neg Bool.false_ne_true, hfilter, Option.some.injEq]
            exact ⟨fun h => ⟨h.symm, h ▸ hempty⟩, fun h => h.1.symm⟩

theorem usablePlaceholder_eq_some_iff :
    usablePlaceholder kind (Attributes.ofList inserted) = some v ↔
      kind.isInput = true ∧ Attributes.Says inserted "placeholder" v := by
  unfold usablePlaceholder
  cases kind.isInput with
  | true => simp [Attributes.text_ofList_eq_some_iff]
  | false => simp

theorem offers_role_iff : Offers inserted text kind .structuralRole v ↔
    ((Attributes.ofList inserted).text "role").getD kind.defaultRole = v := by
  constructor
  · intro h
    cases h with
    | role h => rw [Attributes.text_ofList_eq_some_iff.mpr h, Option.getD_some]
    | defaultRole h => rw [Attributes.text_ofList_eq_none_iff.mpr h, Option.getD_none]
  · rintro rfl
    cases h : (Attributes.ofList inserted).text "role" with
    | none => exact .defaultRole (Attributes.text_ofList_eq_none_iff.mp h)
    | some role => exact .role (Attributes.text_ofList_eq_some_iff.mp h)

theorem offers_iff : Offers inserted text kind strategy v ↔
    offer? (Attributes.ofList inserted) text kind strategy = some v := by
  cases strategy with
  | testId =>
      rw [offer?, Attributes.text_ofList_eq_some_iff]
      exact ⟨fun | .testId h => h, .testId⟩
  | accessibleLabel =>
      rw [offer?, Attributes.text_ofList_eq_some_iff]
      exact ⟨fun | .accessibleLabel h => h, .accessibleLabel⟩
  | visibleText =>
      rw [offer?, usableText_eq_some_iff]
      constructor
      · rintro (_ | _ | ⟨hkind, hs, hv⟩)
        exact ⟨hkind, _, hs, hv⟩
      · rintro ⟨hkind, s, hs, hv⟩
        exact .visibleText hkind hs hv
  | placeholder =>
      rw [offer?, usablePlaceholder_eq_some_iff]
      exact ⟨fun | .placeholder hkind h => ⟨hkind, h⟩, fun h => .placeholder h.1 h.2⟩
  | structuralRole => rw [offer?, Option.some.injEq, offers_role_iff]

/-- What is offered has no blanks around it if the role that comes with the kind has none. -/
theorem Offers.isTrimmed (h : Offers inserted text kind strategy v)
    (hkind : kind.HasTrimmedRole) : Text.IsTrimmed v := by
  cases h with
  | testId h => exact h.choose_spec.2.1
  | accessibleLabel h => exact h.choose_spec.2.1
  | visibleText _ _ h => exact h.isTrimmed
  | placeholder _ h => exact h.choose_spec.2.1
  | role h => exact h.choose_spec.2.1
  | defaultRole _ => exact hkind.isTrimmed_defaultRole

/-- The locators are tried one after the other. -/
theorem derive_cases (attributes : Attributes) (text : Option String) (kind : ElementKind) :
    offer? attributes text kind (derive attributes text kind).strategy =
        some (derive attributes text kind).value ∧
      (∀ strategy, strategy.rank < (derive attributes text kind).strategy.rank →
        offer? attributes text kind strategy = none) ∧
      (derive attributes text kind).role =
        if (derive attributes text kind).strategy = .structuralRole then
          some (derive attributes text kind).value else none := by
  generalize hs : derive attributes text kind = s
  unfold derive at hs
  split at hs
  · next hid =>
    subst hs
    exact ⟨hid, fun _ h => absurd h (Nat.not_lt_zero _), rfl⟩
  · next hid =>
    split at hs
    · next hlabel =>
      subst hs
      refine ⟨hlabel, fun strategy h => ?_, rfl⟩
      cases strategy <;> simp_all [Strategy.rank, offer?]
    · next hlabel =>
      split at hs
      · next hshown =>
        subst hs
        refine ⟨hshown, fun strategy h => ?_, rfl⟩
        cases strategy <;> simp_all [Strategy.rank, offer?]
      · next hshown =>
        split at hs
        · next hhint =>
          subst hs
          refine ⟨hhint, fun strategy h => ?_, rfl⟩
          cases strategy <;> simp_all [Strategy.rank, offer?]
        · next hhint =>
          subst hs
          refine ⟨rfl, fun strategy h => ?_, rfl⟩
          cases strategy <;> simp_all [Strategy.rank, offer?, byRole]

theorem isFirstOffer_derive (inserted : List (String × AttributeValue)) (text : Option String)
    (kind : ElementKind) :
    (derive (Attributes.ofList inserted) text kind).IsFirstOffer inserted text kind := by
  obtain ⟨hoffer, hnone, hrole⟩ := derive_cases (Attributes.ofList inserted) text kind
  have hoffered := offers_iff.mpr hoffer
  refine ⟨hoffered, fun strategy v hv => ?_, hrole, hoffered.isTrimmed⟩
  rw [offers_iff] at hv
  rcases Nat.lt_trichotomy strategy.rank
    (derive (Attributes.ofList inserted) text kind).strategy.rank with hlt | heq | hgt
  · rw [hnone strategy hlt] at hv
    cases hv
  · obtain rfl := Strategy.eq_of_rank heq
    rw [hoffer, Option.some.injEq] at hv
    exact .inl ⟨rfl, hv.symm⟩
  · exact .inr hgt

end derive

/-! ### The selector of an element -/

/-- How the selector and the kind of an element follow from what is inserted into its attributes. -/
structure Follows (inserted : List (String × AttributeValue)) : Prop where
  /-- The selector is the first locator that the element offers. -/
  derived : ∀ text kind,
    (derive (Attributes.ofList inserted) text kind).IsFirstOffer inserted text kind
  /-- No other selector is. -/
  unique : ∀ text kind s, IsFirstOffer inserted text kind s →
    s = derive (Attributes.ofList inserted) text kind
  /-- The role of an element whose kind is told by its tag and its attributes has no blanks around
  it. -/
  classified : ∀ tag, (ElementKind.classify tag (Attributes.ofList inserted)).HasTrimmedRole
  /-- Selectors and kinds stay when insertions under different names change places. -/
  rearranged : ∀ inserted', Attributes.Rearranges inserted inserted' →
    derive (Attributes.ofList inserted') = derive (Attributes.ofList inserted) ∧
      ∀ tag, ElementKind.classify tag (Attributes.ofList inserted') =
        ElementKind.classify tag (Attributes.ofList inserted)

/-- Selectors and kinds follow from what is inserted, in whatever order and however often. -/
theorem derives (inserted : List (String × AttributeValue)) : Follows inserted where
  derived := isFirstOffer_derive inserted
  unique text kind s hs := by
    have hd := isFirstOffer_derive inserted text kind
    rcases hd.first _ _ hs.offered with ⟨hstrategy, hvalue⟩ | hlt
    · have hrole := hs.role
      rw [hstrategy, hvalue, ← hd.role] at hrole
      cases s
      cases h : derive (Attributes.ofList inserted) text kind
      simp_all
    · rcases hs.first _ _ hd.offered with ⟨hstrategy, -⟩ | hgt
      · rw [hstrategy] at hlt
        exact absurd hlt (Nat.lt_irrefl _)
      · exact absurd hlt (Nat.lt_asymm hgt)
  classified tag := ElementKind.hasTrimmedRole_classify tag _
  rearranged inserted' h := by
    refine ⟨?_, fun tag => ?_⟩
    · funext text kind
      unfold derive usablePlaceholder
      rw [h.text_ofList]
    · unfold ElementKind.classify
      rw [h.text_ofList]

/-- The last insertion under a name counts, and a flag is no text. -/
example : derive (Attributes.ofList [("data-testid", .text "save"), ("role", .text "tab"),
    ("data-testid", .flag true), ("role", .text " link ")]) (some " ") .button = byRole "link" := by
  decide +kernel

/-- A kind that is made with an empty role leaves an element without locators with an empty
selector. -/
theorem untrimmed_role : ¬ ∀ (inserted : List (String × AttributeValue)) (text : Option String)
    (kind : ElementKind), Text.IsTrimmed (derive (Attributes.ofList inserted) text kind).value :=
  fun h => (h [] none (.other (some ""))).1 rfl

end Selector

end Trellis
