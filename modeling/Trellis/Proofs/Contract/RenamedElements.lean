import Trellis.Proofs.Contract.RenamedTexts

/-! # Elements of a body with a variable renamed

The elements of a body stay when a variable gets another name.

* `Markup.visits_rename`: the same elements are visited, each with the same around it.
* `Gate.ofEnclosures_rename` and `Markup.handlers_rename`: gates and handlers stay if the names of the
  variable are clear, or if it stands in no condition and no handler (`Markup.Unread`).
* `Markup.scans_rename`: then all that elements add to a contract stays, but for tags that are members
  of a variable. -/

namespace Trellis

open Syntax

/-! ### Elements and their tags -/

namespace Enclosure

variable {p q : String} {t c tag : Tree}

theorem isElement_rename : isElement (t.rename p q) = isElement t := by
  unfold isElement
  rw [decide_eq_decide.mpr (Tree.kind_rename_eq_iff (by decide) (by decide)),
    decide_eq_decide.mpr (Tree.kind_rename_eq_iff (by decide) (by decide))]

theorem isShorthand_of_isElement (h : isElement t = true) : t.isShorthand p = false := by
  refine Tree.isShorthand_eq_false fun hk => ?_
  rw [isElement, hk] at h
  cases h

theorem kind_of_isElement (h : isElement t = true) (hk : t.kind ≠ .selfClosingElement) :
    t.kind = .element := by
  simpa [isElement, hk] using h

theorem tagOf?_rename (he : isElement t = true) :
    tagOf? (t.rename p q) = (tagOf? t).map (Tree.rename p q) := by
  have hs : t.isShorthand p = false := isShorthand_of_isElement he
  unfold tagOf?
  rw [Tree.kind_rename hs]
  by_cases hk : t.kind = .selfClosingElement
  · rw [if_pos hk, if_pos hk, Option.map_some]
  · rw [if_neg hk, if_neg hk, Tree.part?_rename hs, kind_of_isElement he hk]
    refine Option.map_congr fun c _ => Tree.renameIn_of_not_isName ?_
    exact Tree.isName_eq_false (by decide) (by decide)

theorem isTag_of_tagOf? (h : t.NamesApart p) (ht : tagOf? t = some tag) :
    Tree.isTag tag.kind = true := by
  unfold tagOf? at ht
  split at ht
  · rename_i hk
    cases ht
    rw [hk]
    rfl
  · obtain ⟨hmem, hlabel⟩ := Tree.mem_children_of_part? ht
    rw [h.openTag tag hmem hlabel]
    rfl

theorem apart_of_tagOf? (h : t.Apart p) (ht : tagOf? t = some tag) : tag.Apart p := by
  unfold tagOf? at ht
  split at ht
  · cases ht
    exact h
  · exact h.of_part? ht

theorem fresh_of_tagOf? (hf : t.Fresh p q) (he : isElement t = true) (ht : tagOf? t = some tag) :
    tag.Fresh p q := by
  unfold tagOf? at ht
  split at ht
  · cases ht
    exact hf
  · rename_i hk
    refine hf.of_mem (Tree.mem_children_of_part? ht).1 ?_
    rw [kind_of_isElement he hk]
    exact Tree.isName_eq_false (by decide) (by decide)

/-- The name of an element stays, but for tags that are members of a variable. -/
theorem tagName?_rename (h : t.Apart p) (he : isElement t = true) :
    (tagName? (t.rename p q)).map Markup.plainTag = (tagName? t).map Markup.plainTag := by
  unfold tagName?
  rw [tagOf?_rename he]
  cases ht : tagOf? t with
  | none => rfl
  | some tag =>
      have htag := isTag_of_tagOf? h.self ht
      have hapart := apart_of_tagOf? h ht
      simp only [Option.map_some, Option.bind_some]
      rw [Tree.part?_rename (Tree.isShorthand_of_isTag htag)]
      cases hc : tag.part? .name with
      | none => rfl
      | some c =>
          obtain ⟨hmem, hlabel⟩ := Tree.mem_children_of_part? hc
          exact congrArg some (Tree.plainTag_renameIn hapart.self htag hmem hlabel)

/-! ### What stands around an element -/

/-- What stands around an element once a variable has another name. -/
def rename (p q : String) : Enclosure → Enclosure
  | markup => markup
  | guard c b => guard (c.rename p q) b

/-- Whether a variable stands in what stands around an element. -/
def uses (name : String) : Enclosure → Bool
  | markup => false
  | guard c _ => c.uses name

theorem guard?_rename (h : t.NamesApart p) (hs : t.isShorthand p = false) :
    guard? (t.rename p q) (Tree.renameIn p q t.kind c) = (guard? t c).map (rename p q) := by
  have hpart {l : Label} (ht : Tree.isTag t.kind = false) (ha : t.kind ≠ .attribute) :
      (t.rename p q).part? l = (t.part? l).map (Tree.rename p q) := by
    rw [Tree.part?_rename hs]
    exact Option.map_congr fun x _ => Tree.renameIn_of_not_isName (Tree.isName_eq_false ht ha)
  unfold guard?
  rw [Tree.kind_rename hs, Tree.label_renameIn]
  split
  · rename_i hk
    rw [h.part?_read (l := .operator) (by rw [hk]; decide) hs,
      hpart (by rw [hk]; decide) (by rw [hk]; decide)]
    cases t.part? .operator with
    | none => rfl
    | some op =>
        cases t.part? .left with
        | none => rfl
        | some left =>
            simp only [Option.map_some, Option.bind_eq_bind, Option.bind_some]
            split_ifs <;> rfl
  · rename_i hk
    rw [hpart (by rw [hk]; decide) (by rw [hk]; decide)]
    cases t.part? .condition with
    | none => rfl
    | some condition =>
        simp only [Option.map_some, Option.bind_eq_bind, Option.bind_some]
        cases c.label <;> rfl
  · rename_i hk
    rw [hpart (by rw [hk]; decide) (by rw [hk]; decide)]
    cases t.part? .condition with
    | none => rfl
    | some condition =>
        simp only [Option.map_some, Option.bind_eq_bind, Option.bind_some]
        cases c.label <;> rfl
  · rfl

theorem between_rename (h : t.Apart p) (hs : t.isShorthand p = false) :
    between (t.rename p q) (Tree.renameIn p q t.kind c) = (between t c).map (rename p q) := by
  unfold between
  rw [isElement_rename, guard?_rename h.self hs]
  cases he : isElement t with
  | false => rfl
  | true =>
      have hname := congrArg Option.isSome (tagName?_rename (q := q) h he)
      rw [Option.isSome_map, Option.isSome_map] at hname
      rw [hname, Bool.true_and]
      cases (tagName? t).isSome <;> rfl

/-- A condition stands in the tree that renders one of its children under it. -/
theorem mem_children_of_between {x : Tree} {b : Bool} (h : between t c = some (guard x b)) :
    x ∈ t.children := by
  unfold between at h
  split at h
  · cases h
  · unfold guard? at h
    split at h
    · obtain ⟨op, _, h⟩ := Option.bind_eq_some_iff.mp h
      obtain ⟨left, hleft, h⟩ := Option.bind_eq_some_iff.mp h
      have hmem := (Tree.mem_children_of_part? hleft).1
      split_ifs at h <;> (cases h; exact hmem)
    · obtain ⟨condition, hcondition, h⟩ := Option.bind_eq_some_iff.mp h
      have hmem := (Tree.mem_children_of_part? hcondition).1
      split at h <;> cases h <;> exact hmem
    · obtain ⟨condition, hcondition, h⟩ := Option.bind_eq_some_iff.mp h
      have hmem := (Tree.mem_children_of_part? hcondition).1
      split at h <;> cases h <;> exact hmem
    · cases h

end Enclosure

/-- The gate of an element stays if what its conditions say of the props stays. -/
theorem Gate.ofEnclosures_rename {p q : String} {props : List String} {around : List Enclosure}
    (h : ∀ c b, Enclosure.guard c b ∈ around →
      Mentions.ofCondition props (c.rename p q) = Mentions.ofCondition props c) :
    ofEnclosures props (around.map (Enclosure.rename p q)) = ofEnclosures props around := by
  suffices hcollect : ∀ inMarkup g, collect props inMarkup g (around.map (Enclosure.rename p q)) =
      collect props inMarkup g around from hcollect false none
  induction around with
  | nil => exact fun _ _ => rfl
  | cons x around ih =>
      intro inMarkup g
      have hrest := ih fun c b hc => h c b (List.mem_cons_of_mem _ hc)
      cases x with
      | markup => exact hrest true g
      | guard c b =>
          rw [List.map_cons, Enclosure.rename, collect, collect, h c b List.mem_cons_self]
          simp only [hrest]

namespace Markup

variable {p q : String} {t : Tree} {around : List Enclosure} {v : Visit}

/-! ### Elements of a body -/

theorem visitsOfAll_eq (parent : Tree) (around : List Enclosure) (ts : List Tree) :
    visitsOfAll parent around ts = ts.flatMap fun c =>
      if c.kind = .mark then [] else visits ((Enclosure.between parent c).toList ++ around) c := by
  induction ts with
  | nil => rw [visitsOfAll, List.flatMap_nil]
  | cons t ts ih => rw [visitsOfAll, List.flatMap_cons, ih]

theorem visits_eq (around : List Enclosure) (t : Tree) : visits around t =
    (if Enclosure.isElement t then [⟨t, around⟩] else []) ++ t.children.flatMap fun c =>
      if c.kind = .mark then [] else visits ((Enclosure.between t c).toList ++ around) c := by
  cases t
  rw [visits, visitsOfAll_eq]
  rfl

theorem visits_eq_nil (h : ∀ d ∈ t.descendants, Tree.tellingKinds.contains d.kind = false) :
    visits around t = [] := by
  induction t using Tree.induct generalizing around with
  | node k l x n ts ih =>
      have hself : Enclosure.isElement (.node k l x n ts) = false := by
        have hkind := h _ (Tree.self_mem_descendants _)
        cases he : Enclosure.isElement (.node k l x n ts) with
        | false => rfl
        | true =>
            simp only [Enclosure.isElement, Bool.or_eq_true, decide_eq_true_eq] at he
            rcases he with he | he <;> (rw [he] at hkind; cases hkind)
      rw [visits_eq, hself, if_neg Bool.false_ne_true, List.nil_append, List.flatMap_eq_nil_iff]
      intro c hc
      split
      · rfl
      · rename_i hm
        exact ih c hc fun d hd => h d (Tree.mem_descendants_iff.mpr (.inr ⟨c, hc, hm, hd⟩))

/-- An element with what stands around it once a variable has another name. -/
def Visit.rename (p q : String) (v : Visit) : Visit :=
  ⟨v.element.rename p q, v.around.map (Enclosure.rename p q)⟩

/-- The same elements are visited, each with the same around it. -/
theorem visits_rename (h : t.Apart p) : visits (around.map (Enclosure.rename p q)) (t.rename p q) =
    (visits around t).map (Visit.rename p q) := by
  induction t using Tree.induct generalizing around with
  | node k l x n ts ih =>
      cases hs : (Tree.node k l x n ts).isShorthand p with
      | true =>
          have hk := Tree.kind_of_isShorthand hs
          have hchildren : (Tree.node k l x n ts).children = [] :=
            h.self.token (by rw [hk]; decide)
          rw [Tree.rename_of_isShorthand hs, visits_eq _ (Tree.node k l x n ts), hchildren,
            Enclosure.isElement, hk]
          rfl
      | false =>
          rw [visits_eq, visits_eq _ (Tree.node k l x n ts), List.map_append,
            Enclosure.isElement_rename, Tree.children_rename hs, List.flatMap_map, List.map_flatMap]
          refine congrArg₂ _ ?_ (List.flatMap_congr fun c hc => ?_)
          · split <;> rfl
          · have hmark : (Tree.renameIn p q (Tree.node k l x n ts).kind c).kind = .mark ↔
                c.kind = .mark := Tree.kind_renameIn_eq_iff (by decide) (by decide)
            by_cases hm : c.kind = .mark
            · rw [if_pos (hmark.mpr hm), if_pos hm, List.map_nil]
            · rw [if_neg (mt hmark.mp hm), if_neg hm, Enclosure.between_rename h hs]
              have haround : ((Enclosure.between (.node k l x n ts) c).map
                  (Enclosure.rename p q)).toList ++ around.map (Enclosure.rename p q) =
                  ((Enclosure.between (.node k l x n ts) c).toList ++ around).map
                    (Enclosure.rename p q) := by
                cases Enclosure.between (.node k l x n ts) c <;> rfl
              rw [haround]
              cases hn : Tree.isName (Tree.node k l x n ts).kind c with
              | true =>
                  have hnone := h.self.names c hc hn
                  rw [Tree.renameIn_eq_self (.inl hn), visits_eq_nil hnone, visits_eq_nil hnone,
                    List.map_nil]
              | false =>
                  rw [Tree.renameIn_of_not_isName hn]
                  exact ih c hc (h.of_mem hc)

/-- An element stands in the body, and so do the conditions around it. -/
theorem apart_of_mem_visits (h : t.Apart p) (hv : v ∈ visits around t) :
    v.element.Apart p ∧ Enclosure.isElement v.element = true ∧
      ∀ c b, Enclosure.guard c b ∈ v.around → Enclosure.guard c b ∈ around ∨ c.Apart p := by
  induction t using Tree.induct generalizing around with
  | node k l x n ts ih =>
      rw [visits_eq, List.mem_append, List.mem_flatMap] at hv
      rcases hv with hv | ⟨c, hc, hv⟩
      · split at hv
        · rename_i he
          cases List.mem_singleton.mp hv
          exact ⟨h, he, fun c b hc => .inl hc⟩
        · cases hv
      · split at hv
        · cases hv
        · obtain ⟨hapart, he, haround⟩ := ih c hc (h.of_mem hc) hv
          refine ⟨hapart, he, fun x b hx => (haround x b hx).elim (fun hx => ?_) .inr⟩
          rcases List.mem_append.mp hx with hx | hx
          · have hmem := Enclosure.mem_children_of_between (Option.mem_toList.mp hx)
            exact .inr (h.of_mem hmem)
          · exact .inl hx

theorem fresh_of_mem_visits (h : t.Apart p) (hf : t.Fresh p q) (hv : v ∈ visits around t) :
    v.element.Fresh p q := by
  induction t using Tree.induct generalizing around with
  | node k l x n ts ih =>
      rw [visits_eq, List.mem_append, List.mem_flatMap] at hv
      rcases hv with hv | ⟨c, hc, hv⟩
      · split at hv
        · cases List.mem_singleton.mp hv
          exact hf
        · cases hv
      · split at hv
        · cases hv
        · cases hn : Tree.isName (Tree.node k l x n ts).kind c with
          | true =>
              rw [visits_eq_nil (h.self.names c hc hn)] at hv
              cases hv
          | false => exact ih c hc (h.of_mem hc) (hf.of_mem hc hn) hv

/-! ### Handlers -/

/-- The callback props that one node mentions. -/
def calledIn (props : List ComponentProp) (t : Tree) : List String :=
  (Mentions.nameOf? t).toList.filter fun n => props.any fun x => x.name = n && x.isCallback

theorem handlers_eq (props : List ComponentProp) (tag : Tree) : handlers props tag =
    distinct ((tag.parts.filter isHandler).flatMap fun a =>
      a.descendants.flatMap (calledIn props)) := by
  unfold handlers handlerNames calledIn
  rw [List.filterMap_eq_flatMap_toList, List.flatMap_assoc, List.filter_flatMap]
  simp only [List.filter_flatMap]

theorem isHandler_rename (h : t.NamesApart p) (hs : t.isShorthand p = false) :
    isHandler (t.rename p q) = isHandler t := by
  unfold isHandler
  rw [Tree.kind_rename hs]
  by_cases hk : t.kind = .attribute
  · have hname : (t.rename p q).content? = t.content? := by
      rw [Tree.content?_rename hs]
      cases hc : t.content? with
      | none => rfl
      | some c =>
          have hvaries := h.attributeName hk c (List.mem_append_right _ (by simp [hc]))
          rw [Tree.varies, Bool.and_eq_false_iff, Bool.not_eq_false'] at hvaries
          rw [Option.map_some, Tree.renameIn_eq_self hvaries]
    rw [hname]
  · rw [decide_eq_false hk, Bool.false_and, Bool.false_and]

theorem kind_of_isHandler (h : isHandler t = true) : t.kind = .attribute := by
  rw [isHandler, Bool.and_eq_true, decide_eq_true_eq] at h
  exact h.1

/-- The attributes for handlers are those of the tag, each with the variable renamed. -/
theorem filter_isHandler_rename {tag : Tree} (h : tag.Apart p) (ht : Tree.isTag tag.kind = true) :
    (tag.rename p q).parts.filter isHandler =
      (tag.parts.filter isHandler).map (Tree.rename p q) := by
  rw [Tree.parts_rename (Tree.isShorthand_of_isTag ht), List.filter_map]
  have hfilter : tag.parts.filter (isHandler ∘ Tree.renameIn p q tag.kind) =
      tag.parts.filter isHandler := by
    refine List.filter_congr fun a ha => ?_
    rw [Function.comp_apply]
    by_cases hk : a.kind = .attribute
    · rw [Tree.renameIn_of_not_isName (Tree.isName_of_attribute hk),
        isHandler_rename (h.of_mem_parts ha).self (Tree.isShorthand_eq_false (by simp [hk]))]
    · have hk' : (Tree.renameIn p q tag.kind a).kind ≠ .attribute :=
        mt (Tree.kind_renameIn_eq_iff (by decide) (by decide)).mp hk
      rw [isHandler, isHandler, decide_eq_false hk, decide_eq_false hk', Bool.false_and,
        Bool.false_and]
  rw [hfilter]
  refine List.map_congr_left fun a ha => ?_
  have hk := kind_of_isHandler (List.mem_filter.mp ha).2
  exact Tree.renameIn_of_not_isName (Tree.isName_of_attribute hk)

/-- The callback props that a tree mentions stay if the names of the variable are clear. -/
theorem called_rename {props : List ComponentProp} (hc : ClearNames p q (props.map (·.name)))
    (h : t.Apart p) (hf : t.Fresh p q) :
    (t.rename p q).descendants.flatMap (calledIn props) = t.descendants.flatMap (calledIn props) := by
  have hnot {n : String} (hn : n ∉ props.map (·.name)) :
      (props.any fun x => x.name = n && x.isCallback) = false := by
    rw [List.any_eq_false]
    intro x hx
    have hne : x.name ≠ n := fun e => hn (List.mem_map.mpr ⟨x, hx, e⟩)
    simp [hne]
  refine Tree.flatMap_descendants_rename (fun d hd _ hs => ?_) (fun d hs => ?_) (fun _ _ => rfl) t h hf
  · unfold calledIn
    rcases Mentions.nameOf?_rename hc hd.self hs with hname | ⟨hname, hname'⟩
    · rw [hname]
    · simp [hname, hname', hnot hc.notMem.1, hnot hc.notMem.2]
  · have hnone : Mentions.nameOf? d = none := by
      rw [Mentions.nameOf?, Tree.kind_of_isShorthand hs]
    rw [Tree.rename_of_isShorthand hs, calledIn, hnone]
    simp [Tree.descendants, Tree.descendantsOfAll, Tree.kind, Tree.text, calledIn, Mentions.nameOf?,
      hnot hc.notMem.2]

/-- The handlers of a tag stay if the names of the variable are clear, or if it stands in no handler. -/
theorem handlers_rename {props : List ComponentProp} {tag : Tree} (h : tag.Apart p)
    (hf : tag.Fresh p q) (ht : Tree.isTag tag.kind = true)
    (hunseen : ClearNames p q (props.map (·.name)) ∨
      ∀ a ∈ tag.parts, isHandler a = true → a.uses p = false) :
    handlers props (tag.rename p q) = handlers props tag := by
  rw [handlers_eq, handlers_eq, filter_isHandler_rename h ht, List.flatMap_map]
  refine congrArg _ (List.flatMap_congr fun a ha => ?_)
  obtain ⟨hmem, ha⟩ := List.mem_filter.mp ha
  rcases hunseen with hclear | hunused
  · refine called_rename hclear (h.of_mem_parts hmem) ?_
    exact hf.of_mem (Tree.mem_children_of_mem_parts hmem)
      (Tree.isName_of_attribute (kind_of_isHandler ha))
  · rw [Tree.rename_eq_self (hunused a hmem ha)]

end Markup

/-! ### What elements add to a contract -/

/-- The element with its tag as `Markup.plainTag` has it. -/
def InteractiveElement.plain (e : InteractiveElement) : InteractiveElement :=
  { e with tag := Markup.plainTag e.tag }

/-- The element with its tag as `Markup.plainTag` has it. -/
def ConditionalElement.plain (e : ConditionalElement) : ConditionalElement :=
  { e with tag := Markup.plainTag e.tag }

namespace Markup

/-- What an element adds to a contract, but for tags that are members of a variable. -/
def Scan.plain : Scan → Scan
  | .always e => .always e.plain
  | .gated e => .gated e.plain

/-- Whether a variable stands in no condition around an element of a body and in no handler. -/
def Unread (name : String) (body : Tree) : Prop :=
  ∀ v ∈ visits [] body, (∀ e ∈ v.around, e.uses name = false) ∧
    ∀ tag ∈ Enclosure.tagOf? v.element, ∀ a ∈ tag.parts, isHandler a = true → a.uses name = false

instance (name : String) (body : Tree) : Decidable (Unread name body) :=
  inferInstanceAs (Decidable (∀ v ∈ visits [] body, (∀ e ∈ v.around, e.uses name = false) ∧
    ∀ tag ∈ Enclosure.tagOf? v.element, ∀ a ∈ tag.parts, isHandler a = true → a.uses name = false))

/-- What the elements of a body add to a contract. -/
def scans (props : List ComponentProp) (body : Tree) : List Scan :=
  (visits [] body).filterMap (Scan.ofVisit? props)

variable {p q : String} {t : Tree} {v : Visit} {props : List ComponentProp}

theorem Scan.ofVisit?_rename (h : v.element.Apart p) (he : Enclosure.isElement v.element = true)
    (hgate : Gate.ofEnclosures (props.map (·.name)) (v.around.map (Enclosure.rename p q)) =
      Gate.ofEnclosures (props.map (·.name)) v.around)
    (hhandlers : ∀ tag ∈ Enclosure.tagOf? v.element,
      handlers props (tag.rename p q) = handlers props tag) :
    (ofVisit? props (v.rename p q)).map plain = (ofVisit? props v).map plain := by
  have hname := Enclosure.tagName?_rename (q := q) h he
  unfold ofVisit?
  rw [Visit.rename, Enclosure.tagOf?_rename he]
  dsimp only
  cases ht : Enclosure.tagOf? v.element with
  | none => rfl
  | some tag =>
      have htag := Enclosure.isTag_of_tagOf? h.self ht
      have hattributes : (Attributes.ofTag (tag.rename p q)).plain = (Attributes.ofTag tag).plain :=
        Attributes.plain_ofTag_rename (Enclosure.apart_of_tagOf? h ht) htag
      cases hn : Enclosure.tagName? v.element with
      | none =>
          rw [hn, Option.map_none, Option.map_eq_none_iff] at hname
          rw [hname]
          rfl
      | some name =>
          rw [hn, Option.map_some, Option.map_eq_some_iff] at hname
          obtain ⟨name', hn', hname⟩ := hname
          have hkind := ElementKind.classify_congr hname hattributes
          rw [hn']
          simp only [Option.bind_eq_bind, Option.bind_some, Option.map_some, hkind, hgate,
            staticText_rename h, Selector.derive_congr hattributes, hhandlers tag ht, Tree.line_rename,
            Attributes.contains_congr hattributes, Attributes.flag_congr hattributes]
          cases Gate.ofEnclosures (props.map (·.name)) v.around with
          | none =>
              dsimp only
              split
              · simp only [Option.map_some, plain, InteractiveElement.plain, hname]
              · rfl
          | some g =>
              dsimp only
              split
              · simp only [Option.map_some, plain, ConditionalElement.plain, hname]
              · rfl

/-- What the elements of a body add to a contract stays if the names of the variable are clear, or if
it stands in no condition and no handler. -/
theorem scans_rename (h : t.Apart p) (hf : t.Fresh p q)
    (hunseen : ClearNames p q (props.map (·.name)) ∨ Unread p t) :
    (scans props (t.rename p q)).map Scan.plain = (scans props t).map Scan.plain := by
  unfold scans
  rw [← List.map_nil (f := Enclosure.rename p q), visits_rename h, List.map_nil, List.filterMap_map, List.map_filterMap, List.map_filterMap]
  refine List.filterMap_congr fun v hv => ?_
  obtain ⟨hapart, he, hguards⟩ := apart_of_mem_visits h hv
  refine Scan.ofVisit?_rename hapart he (Gate.ofEnclosures_rename fun c b hc => ?_) fun tag ht => ?_
  · rcases hunseen with hclear | hunread
    · exact Mentions.ofCondition_rename hclear
        ((hguards c b hc).resolve_left List.not_mem_nil)
    · rw [Tree.rename_eq_self ((hunread v hv).1 (.guard c b) hc)]
  · exact handlers_rename (Enclosure.apart_of_tagOf? hapart ht)
      (Enclosure.fresh_of_tagOf? (fresh_of_mem_visits h hf hv) he ht)
      (Enclosure.isTag_of_tagOf? hapart.self ht)
      (hunseen.imp_right fun hunread => (hunread v hv).2 tag ht)

end Markup

end Trellis
