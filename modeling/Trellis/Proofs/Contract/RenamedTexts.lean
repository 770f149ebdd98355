import Trellis.Proofs.Contract.Renaming

/-! # Texts of a body with a variable renamed

What is read of a tag and of the text in an element when a variable has another name.

* `Tree.plainTag_renameIn`: the name of a tag stays, but for tags that are members of a variable.
* `Attributes.plain_ofTag_rename`: the attributes of a tag stay, but for the texts of expressions. These
  are not read: `ElementKind.classify_congr`, `Selector.derive_congr`.
* `Markup.staticText_rename`: the text of an element stays. -/

namespace Trellis

open Syntax

/-! ### Tags -/

/-- A tag; all tags that are members of a variable count as one. -/
def Markup.plainTag (tag : String) : String := if Text.contains tag "." then "." else tag

namespace Tree

variable {p q : String} {t c : Tree}

theorem isShorthand_of_isTag (h : Tree.isTag t.kind = true) : t.isShorthand p = false := by
  refine Tree.isShorthand_eq_false fun hk => ?_
  rw [hk] at h
  cases h

/-- An attribute is no name in markup. -/
theorem isName_of_attribute {parent : Kind} (hk : t.kind = .attribute) : isName parent t = false := by
  simp [isName, hk]

/-- The text around a variable is computed. -/
theorem text_rename_of_uses (hk : t.kind ≠ .identifier) (hu : t.uses p = true) :
    (t.rename p q).text = hidden := by
  cases hs : t.isShorthand p with
  | true => rw [rename_of_isShorthand hs, text]
  | false =>
      rw [rename_eq hs, text, renamedText, if_neg hk]
      cases t with
      | node k l x n ts =>
          have hne : k ≠ .identifier := hk
          have hnot : (decide (k = Kind.shorthandProperty) && decide (x = p)) = false := hs
          rw [uses, decide_eq_false hne, Bool.false_or, hnot, Bool.false_or] at hu
          exact if_pos hu

/-- The name of a tag stays, or it is a member of a variable in both. -/
theorem plainTag_renameIn (h : t.NamesApart p) (ht : isTag t.kind = true) (hc : c ∈ t.children)
    (hl : c.label = .name) :
    Markup.plainTag (renameIn p q t.kind c).text = Markup.plainTag c.text := by
  cases hv : varies p t.kind c with
  | false =>
      rw [varies, Bool.and_eq_false_iff, Bool.not_eq_false'] at hv
      rw [renameIn_eq_self hv]
  | true =>
      have hmember := h.tagName ht c hc hl hv
      rw [varies, Bool.and_eq_true, Bool.not_eq_true'] at hv
      have hk : c.kind ≠ .identifier := by
        intro hk
        have hname : isName t.kind c = true := by simp [isName, ht, hl, hk]
        rw [hname] at hv
        cases hv.1
      rw [renameIn_of_not_isName hv.1, text_rename_of_uses hk hv.2, Markup.plainTag,
        Markup.plainTag, if_pos hmember]
      rfl

end Tree

/-! ### Attributes -/

/-- The value without the text of an expression. -/
def AttributeValue.plain : AttributeValue → AttributeValue
  | expression _ => expression ""
  | v => v

/-- The attributes without the texts of expressions. -/
def Attributes.plain (a : Attributes) : Attributes := ⟨a.entries.map fun e => (e.1, e.2.plain)⟩

namespace Attributes

variable {a a' : Attributes}

theorem get?_plain (a : Attributes) (name : String) :
    a.plain.get? name = (a.get? name).map AttributeValue.plain := by
  unfold get? plain
  induction a.entries with
  | nil => rfl
  | cons e es ih =>
      rw [List.map_cons, lookup, lookup]
      split
      · rfl
      · exact ih

/-- What is read of attributes does not depend on the texts of expressions. -/
theorem text_congr (h : a.plain = a'.plain) : a.text = a'.text := by
  have hplain (a : Attributes) (name : String) : a.plain.text name = a.text name := by
    unfold text
    rw [get?_plain]
    cases a.get? name with
    | none => rfl
    | some v => cases v <;> rfl
  funext name
  rw [← hplain a, ← hplain a', h]

theorem contains_congr (h : a.plain = a'.plain) : a.contains = a'.contains := by
  have hplain (a : Attributes) (name : String) : a.plain.contains name = a.contains name := by
    rw [contains, contains, get?_plain, Option.isSome_map]
  funext name
  rw [← hplain a, ← hplain a', h]

theorem flag_congr (h : a.plain = a'.plain) (name : String) (b : Bool) :
    a.get? name = some (.flag b) ↔ a'.get? name = some (.flag b) := by
  have hplain (a : Attributes) : a.plain.get? name = some (.flag b) ↔
      a.get? name = some (.flag b) := by
    rw [get?_plain]
    cases a.get? name with
    | none => exact Iff.rfl
    | some v => cases v <;> simp [AttributeValue.plain]
  rw [← hplain a, ← hplain a', h]

theorem plain_ofList (es : List (String × AttributeValue)) :
    (ofList es).plain = ofList (es.map fun e => (e.1, e.2.plain)) := by
  have hinsert (a : Attributes) (name : String) (v : AttributeValue) :
      (a.insert name v).plain = a.plain.insert name v.plain := by
    unfold insert plain
    refine congrArg mk ?_
    induction a.entries with
    | nil => rfl
    | cons e es ih =>
        rw [List.map_cons, insertEntry, insertEntry]
        split
        · rfl
        · rw [List.map_cons, ih]
  suffices hfold : ∀ a : Attributes, (es.foldl (fun a e => a.insert e.1 e.2) a).plain =
      (es.map fun e => (e.1, e.2.plain)).foldl (fun a e => a.insert e.1 e.2) a.plain from
    hfold empty
  induction es with
  | nil => exact fun _ => rfl
  | cons e es ih =>
      intro a
      rw [List.map_cons, List.foldl_cons, List.foldl_cons, ih, hinsert]

end Attributes

/-- A tag that is a member of a variable is none of those that are told apart. -/
theorem ElementKind.ofTag_of_member {tag : String} (h : Text.contains tag "." = true)
    (type : Option String) : ofTag tag type = other none := by
  have hrole : implicitRole tag type = none := by
    unfold implicitRole
    split <;> first | rfl | exact absurd h (by decide)
  unfold ofTag
  rw [hrole]
  split <;> first | rfl | exact absurd h (by decide)

theorem ElementKind.classify_congr {tag tag' : String} {a a' : Attributes}
    (ht : Markup.plainTag tag = Markup.plainTag tag') (h : a.plain = a'.plain) :
    classify tag a = classify tag' a' := by
  have hplain (tag : String) (type : Option String) :
      ofTag (Markup.plainTag tag) type = ofTag tag type := by
    unfold Markup.plainTag
    split
    · rename_i hmember
      rw [ofTag_of_member hmember]
      rfl
    · rfl
  unfold classify
  rw [Attributes.text_congr h, ← hplain tag, ← hplain tag', ht]

theorem Selector.derive_congr {a a' : Attributes} (h : a.plain = a'.plain) (text : Option String)
    (kind : ElementKind) : derive a text kind = derive a' text kind := by
  unfold derive usablePlaceholder
  rw [Attributes.text_congr h]

section attributes
variable {p q : String} {t : Tree}

theorem AttributeValue.isComputed_rename (h : t.NamesApart p) (hk : t.kind = .templateString) :
    isComputed (t.rename p q) = isComputed t ∧ (isComputed t = false → t.rename p q = t) := by
  cases hu : t.uses p with
  | false =>
      rw [Tree.rename_eq_self hu]
      exact ⟨rfl, fun _ => rfl⟩
  | true =>
      have hcomputed := h.template hk hu
      rw [hcomputed]
      refine ⟨?_, fun hno => absurd hno (by decide)⟩
      rw [isComputed, Tree.text_rename_of_uses (by rw [hk]; decide) hu]
      rfl

theorem AttributeValue.ofExpression_rename (h : t.NamesApart p) :
    (ofExpression (t.rename p q)).plain = (ofExpression t).plain := by
  cases hs : t.isShorthand p with
  | true =>
      rw [Tree.rename_of_isShorthand hs, ofExpression, ofExpression, Tree.kind_of_isShorthand hs]
      rfl
  | false =>
      unfold ofExpression
      rw [Tree.kind_rename hs]
      split
      · rename_i hk
        rw [h.rename_token (by rw [hk]; decide) (by rw [hk]; decide) (by rw [hk]; decide)]
      · rename_i hk
        obtain ⟨hcomputed, hself⟩ := isComputed_rename (q := q) h hk
        rw [hcomputed]
        cases hc : isComputed t with
        | true => rfl
        | false => rw [hself hc]
      · rfl
      · rfl
      · rfl

theorem AttributeValue.ofTree_rename (h : t.Apart p) (parent : Kind) :
    (ofTree (Tree.renameIn p q parent t)).plain = (ofTree t).plain := by
  cases hn : Tree.isName parent t with
  | true => rw [Tree.renameIn_eq_self (.inl hn)]
  | false =>
      rw [Tree.renameIn_of_not_isName hn]
      cases hs : t.isShorthand p with
      | true =>
          rw [Tree.rename_of_isShorthand hs, ofTree, ofTree, Tree.kind_of_isShorthand hs]
          rfl
      | false =>
          unfold ofTree
          rw [Tree.kind_rename hs]
          split
          · rename_i hk
            rw [h.self.rename_token (by rw [hk]; decide) (by rw [hk]; decide) (by rw [hk]; decide)]
          · rename_i hk
            rw [Tree.content?_rename hs]
            cases hc : t.content? with
            | none => rfl
            | some c =>
                rw [Option.map_some, Tree.renameIn_of_not_isName
                  (Tree.isName_eq_false (by rw [hk]; decide) (by rw [hk]; decide))]
                exact ofExpression_rename (h.of_mem_parts (Tree.mem_parts_of_content? hc)).self
          · rfl

/-- The attributes of a tag stay, but for the texts of expressions. -/
theorem Attributes.plain_ofTag_rename (h : t.Apart p) (ht : Tree.isTag t.kind = true) :
    (ofTag (t.rename p q)).plain = (ofTag t).plain := by
  have hentry (a : Tree) (ha : a.Apart p) : (entryOf? (Tree.renameIn p q t.kind a)).map
      (fun e => (e.1, e.2.plain)) = (entryOf? a).map fun e => (e.1, e.2.plain) := by
    unfold entryOf?
    by_cases hk : a.kind = .attribute
    · have hs : a.isShorthand p = false := Tree.isShorthand_eq_false (by simp [hk])
      rw [Tree.renameIn_of_not_isName (Tree.isName_of_attribute hk), Tree.kind_rename hs, if_pos hk,
        if_pos hk, Tree.parts_rename hs]
      have hname := ha.self.attributeName hk
      have hparts (c : Tree) (hc : c ∈ a.parts) : c.Apart p := ha.of_mem_parts hc
      cases hp : a.parts with
      | nil => rfl
      | cons c rest =>
          have hvaries := hname c (List.mem_append_left _ (by simp [hp]))
          rw [Tree.varies, Bool.and_eq_false_iff, Bool.not_eq_false'] at hvaries
          rw [List.map_cons, Tree.renameIn_eq_self hvaries]
          cases rest with
          | nil => rfl
          | cons v rest =>
              have hv := hparts v (by simp [hp])
              rw [List.map_cons]
              simp only [Option.map_some, AttributeValue.ofTree_rename hv]
    · have hk' : (Tree.renameIn p q t.kind a).kind ≠ .attribute :=
        mt (Tree.kind_renameIn_eq_iff (by decide) (by decide)).mp hk
      rw [if_neg hk, if_neg hk']
  unfold ofTag
  rw [plain_ofList, plain_ofList, List.map_filterMap, List.map_filterMap,
    Tree.parts_rename (Tree.isShorthand_of_isTag ht), List.filterMap_map]
  exact congrArg ofList (List.filterMap_congr fun a ha => hentry a (h.of_mem_parts ha))

/-! ### Texts -/

/-- What a child tells about the text of an element. -/
def Markup.Piece.ofChild (t : Tree) : Markup.Piece :=
  match t.kind with
  | .markupText => ofText t
  | .markupExpression => ofExpression t
  | .element => nested (staticText t)
  | _ => nothing

theorem Markup.staticText_eq (t : Tree) : staticText t =
    if t.kind = .element then Piece.combine (t.children.map Piece.ofChild) else none := by
  have hpieces (ts : List Tree) : piecesOf ts = ts.map Piece.ofChild := by
    induction ts with
    | nil => rw [piecesOf, List.map_nil]
    | cons t ts ih =>
        rw [piecesOf, List.map_cons, ih]
        rfl
  cases t
  rw [staticText, hpieces]
  rfl

theorem Markup.Piece.ofExpression_rename (h : t.Apart p) (hk : t.kind = .markupExpression) :
    ofExpression (t.rename p q) = ofExpression t := by
  unfold ofExpression
  rw [Tree.content?_rename (Tree.isShorthand_eq_false (by simp [hk]))]
  cases hc : t.content? with
  | none => rfl
  | some c =>
      have hapart := (h.of_mem_parts (Tree.mem_parts_of_content? hc)).self
      rw [Option.map_some, Tree.renameIn_of_not_isName
        (Tree.isName_eq_false (by rw [hk]; decide) (by rw [hk]; decide))]
      dsimp only
      by_cases hstring : c.kind = .string
      · rw [hapart.rename_token (by rw [hstring]; decide) (by rw [hstring]; decide)
          (by rw [hstring]; decide)]
      · have hstring' : (c.rename p q).kind ≠ .string :=
          mt (Tree.kind_rename_eq_iff (by decide) (by decide)).mp hstring
        rw [decide_eq_false hstring, decide_eq_false hstring', Bool.false_or, Bool.false_or]
        by_cases htemplate : c.kind = .templateString
        · obtain ⟨hcomputed, hself⟩ := AttributeValue.isComputed_rename (q := q) hapart htemplate
          rw [hcomputed, Tree.kind_rename (Tree.isShorthand_eq_false (by simp [htemplate]))]
          cases hcase : AttributeValue.isComputed c with
          | true => simp
          | false => rw [hself hcase]
        · have htemplate' : (c.rename p q).kind ≠ .templateString :=
            mt (Tree.kind_rename_eq_iff (by decide) (by decide)).mp htemplate
          rw [decide_eq_false htemplate, decide_eq_false htemplate']
          rfl

/-- The text of an element stays. -/
theorem Markup.staticText_rename (h : t.Apart p) : staticText (t.rename p q) = staticText t := by
  induction t using Tree.induct with
  | node k l x n ts ih =>
      have hkind : ((Tree.node k l x n ts).rename p q).kind = .element ↔
          (Tree.node k l x n ts).kind = .element :=
        Tree.kind_rename_eq_iff (by decide) (by decide)
      rw [staticText_eq, staticText_eq (.node k l x n ts)]
      by_cases hk : (Tree.node k l x n ts).kind = .element
      · rw [if_pos (hkind.mpr hk), if_pos hk,
          Tree.children_rename (Tree.isShorthand_eq_false (by simp [hk])), List.map_map]
        refine congrArg Piece.combine (List.map_congr_left fun c hc => ?_)
        have hapart : c.Apart p := h.of_mem hc
        rw [Function.comp_apply, hk,
          Tree.renameIn_of_not_isName (Tree.isName_eq_false (by decide) (by decide))]
        unfold Piece.ofChild
        cases hs : c.isShorthand p with
        | true =>
            rw [Tree.rename_of_isShorthand hs, Tree.kind_of_isShorthand hs]
            rfl
        | false =>
            rw [Tree.kind_rename hs]
            split
            · rename_i hck
              rw [hapart.self.rename_token (by rw [hck]; decide) (by rw [hck]; decide)
                (by rw [hck]; decide)]
            · rename_i hck
              exact Piece.ofExpression_rename hapart hck
            · exact congrArg Piece.nested (ih c hc hapart)
            · rfl
      · rw [if_neg (mt hkind.mp hk), if_neg hk]

end attributes

end Trellis
