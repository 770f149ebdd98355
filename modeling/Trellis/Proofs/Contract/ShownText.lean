import Trellis.Proofs.Contract.RenamedTexts
import Trellis.Proofs.Contract.Rendering

/-! # Visible texts

How the text that is read off an element compares to the text that it shows when it is rendered.

* `Child.words_renderAll`: the words of an element's own texts are those of its children, one child
  after the other, as long as references stand for blanks.
* `Markup.isLegible` says that nothing of an element's text is passed over when it is read:
  references stand for blanks, literals have no escapes, and a child whose text is not known adds
  none.
* `Markup.staticText_shown`: the text that is read has the words of all the texts that are seen,
  each by itself. It is the text that is seen just when no two of them run together. -/

namespace Trellis

open Syntax Text.Blank

/-! ### Rendered parts -/

namespace Rendered

variable {rs : List Rendered} {texts : List (List Char)}

theorem textsInside_eq (rs : List Rendered) : textsInside rs =
    rs.flatMap fun r => if r.isElement && r.bearsText then [texts? r] else [] := by
  induction rs with
  | nil => rw [textsInside, List.flatMap_nil]
  | cons r rs ih => rw [textsInside, ih, List.flatMap_cons]

theorem anyBearsText_iff : anyBearsText rs = true ↔ ∃ r ∈ rs, r.bearsText = true := by
  induction rs with
  | nil => simp [anyBearsText]
  | cons r rs ih => rw [anyBearsText, Bool.or_eq_true, ih, List.exists_mem_cons_iff]

theorem mem_ownTexts {s : List Char} : s ∈ ownTexts rs ↔ text s ∈ rs := by
  rw [ownTexts, List.mem_filterMap]
  constructor
  · rintro ⟨r, hr, hs⟩
    cases r <;> cases hs
    exact hr
  · exact fun h => ⟨text s, h, rfl⟩

theorem isSilent_iff : isSilent rs = true ↔ (ownTexts rs).flatMap words = [] := by
  rw [isSilent, List.all_eq_true, List.flatMap_eq_nil_iff]
  exact forall₂_congr fun s _ => List.all_eq_true.trans words_eq_nil_iff.symm

/-- An element in which a text is seen bears one. -/
theorem anyBearsText_of_choose (h : choose rs (textsInside rs) = some texts) :
    anyBearsText rs = true := by
  rw [anyBearsText_iff]
  cases hsilent : isSilent rs with
  | false =>
      obtain ⟨s, hs, hblank⟩ := List.all_eq_false.mp hsilent
      exact ⟨text s, mem_ownTexts.mp hs, by rw [bearsText, Bool.eq_false_iff.mpr hblank]; rfl⟩
  | true =>
      have hne : textsInside rs ≠ [] := fun hnil => by
        unfold choose at h
        rw [hnil, hsilent] at h
        split at h <;> cases h
      obtain ⟨x, hx⟩ := List.exists_mem_of_ne_nil _ hne
      rw [textsInside_eq, List.mem_flatMap] at hx
      obtain ⟨r, hr, hx⟩ := hx
      split at hx
      · next hbears => exact ⟨r, hr, (Bool.and_eq_true_iff.mp hbears).2⟩
      · cases hx

/-- Whether a text has the words of the texts that are seen in an element with such children. -/
def Reads (rs : List Rendered) (s : String) : Prop :=
  ∃ texts, choose rs (textsInside rs) = some texts ∧
    s = String.ofList (joined (texts.flatMap words))

variable {rs' : List Rendered} {s : String}

theorem Reads.element (h : Reads rs s) : Reads [.element rs] s := by
  obtain ⟨texts, hchoose, hs⟩ := h
  refine ⟨texts, ?_, hs⟩
  have hbears : bearsText (.element rs) = true := anyBearsText_of_choose hchoose
  rw [textsInside, textsInside, hbears, texts?, hchoose]
  rfl

/-- Only the words of an element's own texts and, if there are none, what is in its elements matter
to what is seen. -/
theorem Reads.congr (h : Reads rs s)
    (hown : (ownTexts rs').flatMap words = (ownTexts rs).flatMap words)
    (hcomputed : rs.any isComputed = false → rs'.any isComputed = false)
    (hinside : isSilent rs' = true → textsInside rs' = textsInside rs) : Reads rs' s := by
  obtain ⟨texts, hchoose, hs⟩ := h
  have hsilent : isSilent rs' = isSilent rs := by
    rw [Bool.eq_iff_iff, isSilent_iff, isSilent_iff, hown]
  unfold choose at hchoose
  split at hchoose
  · cases hchoose
  · next hnone =>
    have hnone' := hcomputed (Bool.eq_false_iff.mpr hnone)
    split at hchoose
    · next htrue =>
      rw [← hsilent] at htrue
      refine ⟨texts, ?_, hs⟩
      unfold choose
      rwa [hnone', if_neg Bool.false_ne_true, if_pos htrue, hinside htrue]
    · next hfalse =>
      cases hchoose
      rw [← hsilent] at hfalse
      refine ⟨ownTexts rs', ?_, hown ▸ hs⟩
      unfold choose
      rw [hnone', if_neg Bool.false_ne_true, if_neg hfalse]

end Rendered

/-! ### Children of an element -/

namespace Child

open Rendered (ownTexts isComputed textsInside)

/-- Whether a child is part of a text. -/
def isText : Child → Bool
  | rendered _ => false
  | _ => true

/-- The words that a child adds to the texts of an element. -/
def words : Child → List (List Char)
  | written s => Text.Blank.words s
  | reference _ _ => []
  | rendered rs => (ownTexts rs).flatMap Text.Blank.words

/-- Whether it is no reference, or one that stands for blanks. -/
def IsMild : Child → Prop
  | reference _ s => s ≠ [] ∧ IsGap s
  | _ => True

variable {c c' : Child} {g cs : List Child}

theorem isText_of_joins (h : joins c c' = true) : c.isText = true ∧ c'.isText = true := by
  cases c <;> cases c' <;> first | exact ⟨rfl, rfl⟩ | cases h

/-- What belongs together is one child that is no part of a text, or only parts of a text. -/
theorem group_cases (hne : g ≠ []) (h : g.IsChain fun c c' => joins c c' = true) :
    (∃ rs, g = [rendered rs]) ∨
      (∀ c ∈ g, c.isText = true) ∧ render g = [.text (Glyph.shown (glyphs g))] := by
  induction g with
  | nil => exact absurd rfl hne
  | cons c g ih =>
      cases g with
      | nil =>
          cases c with
          | rendered rs => exact .inl ⟨rs, rfl⟩
          | written s => exact .inr ⟨List.forall_mem_singleton.mpr rfl, rfl⟩
          | reference line s => exact .inr ⟨List.forall_mem_singleton.mpr rfl, rfl⟩
      | cons c' g =>
          obtain ⟨hjoins, hchain⟩ := List.isChain_cons_cons.mp h
          obtain ⟨hc, hc'⟩ := isText_of_joins hjoins
          rcases ih (List.cons_ne_nil c' g) hchain with ⟨rs, hrs⟩ | ⟨hall, -⟩
          · cases hrs
            cases hc'
          · refine .inr ⟨List.forall_mem_cons.mpr ⟨hc, hall⟩, ?_⟩
            cases c with
            | rendered rs => cases hc
            | written s => rfl
            | reference line s => rfl

/-- The words of a text with references to blanks are those of its parts. -/
theorem words_glyphs (h : g.IsChain fun c c' => joins c c' = true)
    (htext : ∀ c ∈ g, c.isText = true) (hmild : ∀ c ∈ g, c.IsMild) :
    Text.Blank.words ((glyphs g).map Glyph.char) = g.flatMap words := by
  induction g with
  | nil => rfl
  | cons c g ih =>
      rw [List.forall_mem_cons] at htext hmild
      have hrest := ih h.tail htext.2 hmild.2
      cases c with
      | rendered rs => cases htext.1
      | written s =>
          have hmeets : meets s ((glyphs g).map Glyph.char) = false := by
            cases g with
            | nil => exact Bool.and_false _
            | cons c' g =>
                cases c' with
                | written s' => cases (List.isChain_cons_cons.mp h).1
                | rendered rs => cases (List.isChain_cons_cons.mp h).1
                | reference line s' =>
                    obtain ⟨hne, hgap⟩ := (List.forall_mem_cons.mp hmild.2).1
                    obtain ⟨x, xs, rfl⟩ := List.exists_cons_of_ne_nil hne
                    have hx : Text.isBlank x = true := hgap x List.mem_cons_self
                    simp [meets, glyphs, Glyph.char, hx]
          rw [glyphs, List.map_append, List.map_map, show Glyph.char ∘ Glyph.written = id from rfl,
            List.map_id, words_append hmeets, hrest, List.flatMap_cons, words]
      | reference line s =>
          have hbehind : IsGap ((gapBehind line g).map Glyph.char) := by
            unfold gapBehind
            split
            · split
              · exact .nil
              · exact isGap_cons.mpr ⟨rfl, .nil⟩
            · exact .nil
          have hgap : IsGap ((s.map Glyph.meant ++ gapBehind line g).map Glyph.char) := by
            rw [List.map_append, List.map_map, show Glyph.char ∘ Glyph.meant = id from rfl,
              List.map_id]
            exact hmild.1.2.append hbehind
          rw [glyphs, List.map_append, words_gap_append hgap, hrest, List.flatMap_cons, words,
            List.nil_append]

/-- What is gathered of what becomes of several children, group by group. -/
theorem renderAll_hom {β : Type} {F : List Rendered → List β} {G : Child → List β}
    (hnil : F [] = []) (happend : ∀ rs rs', F (rs ++ rs') = F rs ++ F rs')
    (hgroup : ∀ g ∈ cs.splitBy joins, F (render g) = g.flatMap G) :
    F (renderAll cs) = cs.flatMap G := by
  have hall (gs : List (List Child)) (h : ∀ g ∈ gs, F (render g) = g.flatMap G) :
      F (gs.flatMap render) = gs.flatten.flatMap G := by
    induction gs with
    | nil => exact hnil
    | cons g gs ih =>
        rw [List.forall_mem_cons] at h
        rw [List.flatMap_cons, happend, h.1, ih h.2, List.flatten_cons, List.flatMap_append]
  rw [renderAll, hall _ hgroup, List.flatten_splitBy]

/-- The words of an element's own texts are those of its children. -/
theorem words_renderAll (h : ∀ c ∈ cs, c.IsMild) :
    (ownTexts (renderAll cs)).flatMap Text.Blank.words = cs.flatMap words := by
  refine renderAll_hom (F := fun rs => (ownTexts rs).flatMap Text.Blank.words) rfl
    (fun rs rs' => by rw [ownTexts, List.filterMap_append, List.flatMap_append]; rfl) fun g hg => ?_
  have hmem : ∀ c ∈ g, c ∈ cs := fun c hc =>
    List.flatten_splitBy joins cs ▸ List.mem_flatten_of_mem hg hc
  have hchain := List.isChain_of_mem_splitBy hg
  rcases group_cases (List.ne_nil_of_mem_splitBy hg) hchain with ⟨rs, rfl⟩ | ⟨htext, hrender⟩
  · exact (List.flatMap_singleton _ _).symm
  · rw [hrender, ← words_glyphs hchain htext fun c hc => h c (hmem c hc), ← Glyph.words_shown]
    exact List.append_nil _

/-- What is no text comes from the children that are no part of a text. -/
theorem renderAll_others {β : Type} {f : Rendered → List β} (h : ∀ s, f (.text s) = []) :
    (renderAll cs).flatMap f = cs.flatMap fun c => c.others.flatMap f := by
  refine renderAll_hom (F := fun rs => rs.flatMap f) rfl (fun _ _ => List.flatMap_append)
    fun g hg => ?_
  rcases group_cases (List.ne_nil_of_mem_splitBy hg) (List.isChain_of_mem_splitBy hg)
    with ⟨rs, rfl⟩ | ⟨htext, hrender⟩
  · exact (List.flatMap_singleton _ _).symm
  · have hothers : ∀ c ∈ g, c.others.flatMap f = [] := fun c hc => by
      cases c with
      | rendered rs => cases htext _ hc
      | written s => rfl
      | reference line s => rfl
    rw [hrender, List.flatMap_singleton, h, List.flatMap_eq_nil_iff.mpr hothers]

theorem textsInside_renderAll :
    textsInside (renderAll cs) = cs.flatMap fun c => textsInside c.others := by
  simp only [Rendered.textsInside_eq]
  exact renderAll_others fun s => rfl

theorem isComputed_renderAll : (renderAll cs).any isComputed = false ↔
    ∀ c ∈ cs, c.others.any isComputed = false := by
  have hany (rs : List Rendered) : rs.any isComputed = false ↔
      (rs.flatMap fun r => if r.isComputed then [()] else []) = [] := by
    simp [List.flatMap_eq_nil_iff]
  rw [hany, renderAll_others fun s => rfl, List.flatMap_eq_nil_iff]
  exact forall₂_congr fun c _ => (hany c.others).symm

end Child

namespace Markup

open Rendered (ownTexts isComputed isSilent textsInside Reads)

/-! ### Pieces -/

namespace Piece

/-- The words of a text of the element itself. -/
def words (piece : Piece) : List (List Char) :=
  piece.own?.elim [] fun s => Text.Blank.words s.toList

theorem collapse_intercalate (ss : List String) :
    Text.collapse (String.intercalate " " ss) =
      String.ofList (joined (ss.flatMap fun s => Text.Blank.words s.toList)) := by
  rw [Text.collapse_eq_joined, String.toList_intercalate]
  refine congrArg (fun ws => String.ofList (joined ws)) ?_
  exact (words_joined_eq (ss.map String.toList)).trans (List.flatMap_map _ _ _)

theorem flatMap_own? (pieces : List Piece) :
    ((pieces.filterMap own?).flatMap fun s => Text.Blank.words s.toList) =
      pieces.flatMap words := by
  induction pieces with
  | nil => rfl
  | cons piece pieces ih =>
      rw [List.flatMap_cons, ← ih, words]
      cases h : piece.own? with
      | none => rw [List.filterMap_cons_none h]; rfl
      | some s => rw [List.filterMap_cons_some h, List.flatMap_cons]; rfl

/-- A text that is read is the element's own, or that of the one element whose text is known. -/
theorem cases_of_combine {pieces : List Piece} {s : String} (h : combine pieces = some s) :
    computed ∉ pieces ∧
      ((pieces.filterMap nested? = [] ∧ pieces.flatMap words ≠ [] ∧
          s = String.ofList (joined (pieces.flatMap words))) ∨
        (pieces.filterMap nested? = [s] ∧ pieces.flatMap words = [])) := by
  have hempty : Text.collapse (String.intercalate " " (pieces.filterMap own?)) = "" ↔
      pieces.flatMap words = [] := by
    rw [collapse_intercalate, flatMap_own?]
    refine ⟨fun heq => ?_, fun heq => by rw [heq]; rfl⟩
    rw [← flatMap_own?, ← List.flatMap_map String.toList Text.Blank.words, ← words_joined,
      List.flatMap_map, flatMap_own?, ← String.toList_ofList (l := joined _), heq]
    rfl
  unfold combine at h
  split at h
  · cases h
  · next hnone =>
    refine ⟨fun hmem => hnone (List.contains_iff_mem.mpr hmem), ?_⟩
    dsimp only at h
    split at h
    · next hnested =>
      split at h
      · cases h
      · next hne =>
        cases h
        exact .inl ⟨hnested, mt hempty.mpr hne, by rw [collapse_intercalate, flatMap_own?]⟩
    · next only hnested =>
      split at h
      · next heq =>
        cases h
        exact .inr ⟨hnested, hempty.mp heq⟩
      · cases h
    · cases h

end Piece

/-! ### What is read of an element -/

variable {named : String → List Char} {t c : Tree} {s : String}

theorem childOf_eq (t : Tree) : childOf named t =
    if t.kind = .markupText then .written t.text.toList
    else if t.kind = .characterReference then
      .reference t.line (Reference.decoded named t.text.toList)
    else if t.kind = .markupExpression then .rendered (renderExpression t)
    else if t.kind = .selfClosingElement then .rendered [.element []]
    else if t.kind = .element then
      .rendered (if (Enclosure.tagName? t).isSome then [.element (rendering named t)]
        else rendering named t)
    else .rendered [] := by
  cases t
  rw [childOf]
  rfl

theorem childrenOf_eq (ts : List Tree) : childrenOf named ts = ts.map (childOf named) := by
  induction ts with
  | nil => rw [childrenOf, List.map_nil]
  | cons t ts ih => rw [childrenOf, ih, List.map_cons]

/-- Whether a child is read as it is rendered. A character reference must stand for blanks, and a
literal must have no escapes. An element whose text is not known may have one only in elements, and
only if the element around it has a text itself. -/
def isLegibleIn (named : String → List Char) (t c : Tree) : Bool :=
  if c.kind = .characterReference then
    let s := Reference.decoded named c.text.toList
    !s.isEmpty && isEmpty s
  else if c.kind = .markupExpression then
    (c.content?.bind literal?).all fun s => !s.contains '\\'
  else if c.kind = .element then
    (staticText c).isSome || (childOf named c).others.all fun r =>
      !r.bearsText || (r.isElement && !isSilent (rendering named t))
  else true

/-- Whether nothing of an element's text is passed over when it is read. -/
def isLegible (named : String → List Char) (t : Tree) : Bool := t.children.all (isLegibleIn named t)

mutual

/-- An element, and the elements in it out of which its text comes. -/
def sources : Tree → List Tree
  | .node k l s n ts => .node k l s n ts :: sourcesAmong ts

/-- The elements among several trees and in them out of which a text comes. -/
def sourcesAmong : List Tree → List Tree
  | [] => []
  | t :: ts => (if (staticText t).isSome then sources t else []) ++ sourcesAmong ts

end

theorem mem_sources_self (t : Tree) : t ∈ sources t := by
  cases t
  rw [sources]
  exact List.mem_cons_self

theorem sources_subset (hc : c ∈ t.children) (h : staticText c = some s) :
    sources c ⊆ sources t := by
  have hamong (ts : List Tree) (hc : c ∈ ts) : sources c ⊆ sourcesAmong ts := by
    induction ts with
    | nil => cases hc
    | cons u ts ih =>
        rw [sourcesAmong]
        rcases List.mem_cons.mp hc with rfl | hc
        · rw [h, Option.isSome_some, if_pos rfl]
          exact List.subset_append_left _ _
        · exact List.subset_append_of_subset_right _ (ih hc)
  cases t with
  | node k l x n ts =>
      rw [sources]
      exact List.subset_cons_of_subset _ (hamong ts hc)

/-- What a child whose text is not taken adds to an element. -/
structure Adds (named : String → List Char) (t c : Tree) : Prop where
  /-- It has the words of the piece that is read of it. -/
  words : (childOf named c).words = (Piece.ofChild c).words
  /-- It has no part that is known only when it is rendered. -/
  known : (childOf named c).others.any isComputed = false
  /-- It has no text inside when the element has none itself. -/
  inside : isSilent (rendering named t) = true → textsInside (childOf named c).others = []

theorem adds_of_lost (h : isLegible named t = true) (hc : c ∈ t.children)
    (hkind : c.kind = .element) (hlost : staticText c = none) : Adds named t c := by
  have hothers : ∃ rs, childOf named c = .rendered rs := by
    rw [childOf_eq, hkind]
    exact ⟨_, rfl⟩
  obtain ⟨rs, hrs⟩ := hothers
  have hlost' : ∀ r ∈ (childOf named c).others, r.bearsText = true →
      r.isElement = true ∧ isSilent (rendering named t) = false := by
    have hlegible := List.all_eq_true.mp h c hc
    rw [isLegibleIn, if_neg (by rw [hkind]; decide), if_neg (by rw [hkind]; decide), if_pos hkind,
      hlost, Option.isSome_none, Bool.false_or, List.all_eq_true] at hlegible
    intro r hr hbears
    have := hlegible r hr
    rwa [hbears, Bool.not_true, Bool.false_or, Bool.and_eq_true, Bool.not_eq_true'] at this
  have hpiece : (Piece.ofChild c).words = [] := by
    rw [Piece.ofChild, hkind]
    rfl
  rw [hrs] at hlost'
  refine ⟨?_, ?_, fun hsilent => ?_⟩
  · rw [hrs, hpiece, Child.words, ← Rendered.isSilent_iff, isSilent, List.all_eq_true]
    intro s hs
    by_contra hblank
    have := (hlost' _ (Rendered.mem_ownTexts.mp hs) (by
      rw [Rendered.bearsText, Bool.eq_false_iff.mpr hblank]
      rfl)).1
    cases this
  · rw [hrs, List.any_eq_false]
    intro r hr hcomputed
    cases r <;> cases hcomputed
    cases (hlost' _ hr rfl).1
  · rw [hrs, Rendered.textsInside_eq, List.flatMap_eq_nil_iff]
    intro r hr
    refine if_neg fun hbears => ?_
    rw [Bool.and_eq_true] at hbears
    have := (hlost' r hr hbears.2).2
    rw [hsilent] at this
    cases this

theorem words_ofText (t : Tree) : (Piece.ofText t).words = Text.Blank.words t.text.toList := by
  unfold Piece.ofText
  split
  · next hblank => exact (words_eq_nil_iff.mpr (List.all_eq_true.mp hblank)).symm
  · rw [Piece.words, Piece.own?, Option.elim_some, Text.trim, String.toList_ofList, words_trim]

theorem renderExpression_of_plain (hplain : ∀ s, t.content?.bind literal? = some s → '\\' ∉ s)
    (hcomputed : Piece.ofExpression t ≠ .computed) :
    ∃ ss : List (List Char), renderExpression t = ss.map Rendered.text ∧
      ss.flatMap Text.Blank.words = (Piece.ofExpression t).words := by
  unfold renderExpression
  unfold Piece.ofExpression at *
  cases hcontent : t.content? with
  | none => exact ⟨[], rfl, rfl⟩
  | some e =>
      rw [hcontent] at hcomputed hplain
      dsimp only at hcomputed ⊢
      rw [Option.bind_some] at hplain
      unfold literal? at hplain ⊢
      split at hcomputed
      · next hliteral =>
        rw [if_pos hliteral] at hplain ⊢
        rw [if_pos hliteral]
        refine ⟨[_], rfl, ?_⟩
        rw [Text.Escape.decoded_of_plain (hplain _ rfl)]
        exact List.append_nil _
      · exact absurd rfl hcomputed

theorem words_ofChild_of_other (htext : t.kind ≠ .markupText) (hexp : t.kind ≠ .markupExpression)
    (helement : t.kind ≠ .element) : (Piece.ofChild t).words = [] := by
  unfold Piece.ofChild
  split
  · next h => exact absurd h htext
  · next h => exact absurd h hexp
  · next h => exact absurd h helement
  · rfl

theorem adds_of_ne_element (h : isLegible named t = true) (hc : c ∈ t.children)
    (hkind : c.kind ≠ .element) (hcomputed : Piece.ofChild c ≠ .computed) : Adds named t c := by
  by_cases htext : c.kind = .markupText
  · have hchild : childOf named c = .written c.text.toList := by rw [childOf_eq, if_pos htext]
    refine ⟨?_, by rw [hchild]; rfl, fun _ => by rw [hchild]; rfl⟩
    rw [hchild, Piece.ofChild, htext]
    exact (words_ofText c).symm
  by_cases hexp : c.kind = .markupExpression
  · rw [Piece.ofChild, hexp] at hcomputed
    have hplain (s : List Char) (hs : c.content?.bind literal? = some s) : '\\' ∉ s := by
      have hlegible := List.all_eq_true.mp h c hc
      rw [isLegibleIn, if_neg (by rw [hexp]; decide), if_pos hexp, hs, Option.all_some,
        Bool.not_eq_true'] at hlegible
      exact fun hmem => Bool.eq_false_iff.mp hlegible (List.contains_iff_mem.mpr hmem)
    obtain ⟨ss, hss, hwords⟩ := renderExpression_of_plain hplain hcomputed
    have hchild : childOf named c = .rendered (ss.map .text) := by
      rw [childOf_eq, if_neg htext, if_neg (by rw [hexp]; decide), if_pos hexp, hss]
    have hown : ownTexts (ss.map .text) = ss := by
      rw [ownTexts, List.filterMap_map]
      exact List.filterMap_some
    have hquiet : ∀ r ∈ ss.map Rendered.text, r.isComputed = false ∧ r.isElement = false := by
      intro r hr
      obtain ⟨s, -, rfl⟩ := List.mem_map.mp hr
      exact ⟨rfl, rfl⟩
    refine ⟨?_, ?_, fun _ => ?_⟩
    · rw [hchild, Child.words, hown, hwords, Piece.ofChild, hexp]
    · rw [hchild, List.any_eq_false]
      exact fun r hr => Bool.eq_false_iff.mp (hquiet r hr).1
    · rw [hchild, Rendered.textsInside_eq, List.flatMap_eq_nil_iff]
      exact fun r hr => by rw [(hquiet r hr).2]; rfl
  · have hother : ∃ x, childOf named c = x ∧ x.words = [] ∧ x.others.any isComputed = false ∧
        textsInside x.others = [] := by
      rw [childOf_eq, if_neg htext, if_neg hexp, if_neg hkind]
      refine ⟨_, rfl, ?_⟩
      split
      · exact ⟨rfl, rfl, rfl⟩
      · split <;> exact ⟨rfl, rfl, rfl⟩
    obtain ⟨x, rfl, hwords, hknown, hinside⟩ := hother
    exact ⟨hwords.trans (words_ofChild_of_other htext hexp hkind).symm, hknown, fun _ => hinside⟩

/-- A child whose text is not taken is no element, or its text is not known. -/
theorem adds_of_not_taken (h : isLegible named t = true) (hc : c ∈ t.children)
    (hcomputed : Piece.ofChild c ≠ .computed) (hnested : (Piece.ofChild c).nested? = none) :
    Adds named t c := by
  by_cases hkind : c.kind = .element
  · rw [Piece.ofChild, hkind] at hnested
    exact adds_of_lost h hc hkind hnested
  · exact adds_of_ne_element h hc hkind hcomputed

theorem isMild_childOf (h : isLegible named t = true) (hc : c ∈ t.children) :
    (childOf named c).IsMild := by
  rw [childOf_eq]
  split
  · trivial
  · split
    · next href =>
      have hlegible := List.all_eq_true.mp h c hc
      rw [isLegibleIn, if_pos href, Bool.and_eq_true, Bool.not_eq_true'] at hlegible
      exact ⟨List.isEmpty_eq_false_iff.mp hlegible.1, List.all_eq_true.mp hlegible.2⟩
    · split
      · trivial
      · split
        · trivial
        · split <;> trivial

theorem words_rendering (h : isLegible named t = true) :
    (ownTexts (rendering named t)).flatMap Text.Blank.words =
      t.children.flatMap fun c => (childOf named c).words := by
  rw [rendering, Child.words_renderAll, childrenOf_eq, List.flatMap_map]
  rw [childrenOf_eq, List.forall_mem_map]
  exact fun c hc => isMild_childOf h hc

theorem textsInside_rendering (t : Tree) : textsInside (rendering named t) =
    t.children.flatMap fun c => textsInside (childOf named c).others := by
  rw [rendering, Child.textsInside_renderAll, childrenOf_eq, List.flatMap_map]

theorem isComputed_rendering
    (h : ∀ c ∈ t.children, (childOf named c).others.any isComputed = false) :
    (rendering named t).any isComputed = false := by
  rw [rendering, Child.isComputed_renderAll, childrenOf_eq, List.forall_mem_map]
  exact h

/-- The text of the element itself. -/
theorem reads_own (h : isLegible named t = true) (hadds : ∀ c ∈ t.children, Adds named t c)
    (hne : t.children.flatMap (fun c => (Piece.ofChild c).words) ≠ []) :
    Reads (rendering named t)
      (String.ofList (joined (t.children.flatMap fun c => (Piece.ofChild c).words))) := by
  have hwords : (ownTexts (rendering named t)).flatMap Text.Blank.words =
      t.children.flatMap fun c => (Piece.ofChild c).words :=
    (words_rendering h).trans (List.flatMap_congr fun c hc => (hadds c hc).words)
  have hsilent : ¬ isSilent (rendering named t) = true := by rwa [Rendered.isSilent_iff, hwords]
  refine ⟨ownTexts (rendering named t), ?_, by rw [hwords]⟩
  unfold Rendered.choose
  rw [isComputed_rendering fun c hc => (hadds c hc).known, if_neg Bool.false_ne_true,
    if_neg hsilent]

/-- The text of the one child whose text is known. -/
theorem reads_nested {before after : List Tree} (h : isLegible named t = true)
    (hchildren : t.children = before ++ c :: after)
    (hadds : ∀ x, x ∈ before ∨ x ∈ after → Adds named t x)
    (hown : ∀ x ∈ t.children, (Piece.ofChild x).words = []) (hkind : c.kind = .element)
    (hreads : Reads (rendering named c) s) : Reads (rendering named t) s := by
  obtain ⟨rs, hrs, hreads⟩ : ∃ rs, childOf named c = .rendered rs ∧ Reads rs s := by
    rw [childOf_eq, hkind]
    refine ⟨_, rfl, ?_⟩
    split
    · exact hreads.element
    · exact hreads
  have hmem {x : Tree} (hx : x ∈ before ∨ x ∈ after) : x ∈ t.children := by
    rw [hchildren, List.mem_append, List.mem_cons]
    exact hx.imp_right .inr
  -- The other children add nothing, whatever is gathered of them.
  have honly {β : Type} {f : Child → List β}
      (hf : ∀ x, x ∈ before ∨ x ∈ after → f (childOf named x) = []) :
      (t.children.flatMap fun x => f (childOf named x)) = f (.rendered rs) := by
    rw [hchildren, List.flatMap_append, List.flatMap_cons, hrs,
      List.flatMap_eq_nil_iff.mpr fun x hx => hf x (.inl hx),
      List.flatMap_eq_nil_iff.mpr fun x hx => hf x (.inr hx), List.nil_append, List.append_nil]
  refine hreads.congr ?_ (fun hknown => isComputed_rendering fun x hx => ?_) fun hsilent => ?_
  · rw [words_rendering h]
    exact honly fun x hx => (hadds x hx).words.trans (hown x (hmem hx))
  · rw [hchildren, List.mem_append, List.mem_cons] at hx
    rcases hx with hx | rfl | hx
    · exact (hadds x (.inl hx)).known
    · rw [hrs]
      exact hknown
    · exact (hadds x (.inr hx)).known
  · rw [textsInside_rendering]
    exact honly (f := fun x => textsInside x.others) fun x hx => (hadds x hx).inside hsilent

theorem nested?_ofChild (h : (Piece.ofChild c).nested? = some s) :
    c.kind = .element ∧ staticText c = some s := by
  unfold Piece.ofChild at h
  split at h
  · rw [Piece.ofText] at h
    split at h <;> cases h
  · unfold Piece.ofExpression at h
    split at h
    · cases h
    · split at h <;> cases h
  · next hkind => exact ⟨hkind, h⟩
  · cases h

/-- The text that is read of an element has the words of the texts that are seen in it. -/
theorem reads_of_staticText (h : staticText t = some s)
    (hlegible : ∀ e ∈ sources t, isLegible named e = true) : Reads (rendering named t) s := by
  induction t using Tree.induct generalizing s with
  | node k l x n ts ih =>
      have hself := hlegible _ (mem_sources_self _)
      rw [staticText_eq] at h
      split at h
      · obtain ⟨hcomputed, hcases⟩ := Piece.cases_of_combine h
        rw [List.filterMap_map, List.flatMap_map] at hcases
        have hadds {c : Tree} (hc : c ∈ ts) (hnested : (Piece.ofChild c).nested? = none) :
            Adds named (.node k l x n ts) c :=
          adds_of_not_taken hself hc (fun heq => hcomputed (List.mem_map.mpr ⟨c, hc, heq⟩)) hnested
        rcases hcases with ⟨hnested, hne, rfl⟩ | ⟨hnested, hown⟩
        · exact reads_own hself
            (fun c hc => hadds hc (List.filterMap_eq_nil_iff.mp hnested c hc)) hne
        · obtain ⟨before, c, after, rfl, hbefore, hc, hafter⟩ :=
            List.filterMap_eq_cons_iff.mp hnested
          obtain ⟨hkind, htext⟩ := nested?_ofChild hc
          have hmem : c ∈ before ++ c :: after :=
            List.mem_append_right before List.mem_cons_self
          refine reads_nested hself rfl (fun x hx => ?_) (List.flatMap_eq_nil_iff.mp hown) hkind
            (ih c hmem htext fun e he => hlegible e (sources_subset hmem htext he))
          rcases hx with hx | hx
          · exact hadds (List.mem_append_left _ hx) (hbefore x hx)
          · exact hadds (List.mem_append_right _ (List.mem_cons_of_mem c hx))
              (List.filterMap_eq_nil_iff.mp hafter x hx)
      · cases h

/-- The text that is read of an element has the words of all texts that are seen in it, each by
itself. It is the text by which a reader finds the element just when no two of them run together. -/
theorem staticText_shown (h : staticText t = some s)
    (hlegible : ∀ e ∈ sources t, isLegible named e = true) :
    ∃ texts, (Rendered.element (rendering named t)).texts? = some texts ∧
      s = String.ofList (joined (texts.flatMap Text.Blank.words)) ∧
      (shownText? named t = some s ↔ fuses texts = false) := by
  obtain ⟨texts, htexts, rfl⟩ := reads_of_staticText h hlegible
  rw [← Rendered.texts?] at htexts
  refine ⟨texts, htexts, rfl, ?_⟩
  rw [shownText?, Rendered.text?, htexts, Option.map_some, Option.some.injEq]
  exact Text.collapse_flatten_eq_iff

/-! ### A text that is read right, and one that is not -/

/-- A button with a text in an element in a fragment, and a computed part beside the text. -/
def tom : List Candidate :=
  ((Source.ofText ⟨"Tom.tsx"⟩
    "export const Tom=({n})=><button><><b>Tom&nbsp;and\x7b' Jerry'\x7d<i>{n}</i></b></></button>"
      ).toOption.map Candidate.ofSource).getD []

/-- A button with a text out of two parts. -/
def saved : List Candidate :=
  ((Source.ofText ⟨"Saved.tsx"⟩ "export const Saved=()=><button>Save\x7b'd'\x7d</button>").toOption.map
    Candidate.ofSource).getD []

theorem staticText_shown_tom : ∃ c ∈ tom, ∃ v ∈ c.visits,
    Enclosure.tagName? v.element = some "button" ∧
    staticText v.element = some "Tom and Jerry" ∧
    (∀ e ∈ sources v.element, isLegible Reference.common e = true) ∧ (sources v.element).length = 3 ∧
    shownText? Reference.common v.element = some "Tom and Jerry" := by
  have h : ∃ c ∈ tom, ∃ v ∈ c.visits,
      Enclosure.tagName? v.element = some "button" ∧
      staticText v.element = some "Tom and Jerry" ∧
      (∀ e ∈ sources v.element, isLegible Reference.common e = true) ∧ (sources v.element).length = 3 ∧
      (Rendered.element (rendering Reference.common v.element)).texts?.all (! fuses ·) = true := by
    decide +kernel
  obtain ⟨c, hc, v, hv, htag, htext, hlegible, hlength, hfuses⟩ := h
  obtain ⟨texts, htexts, -, hiff⟩ := staticText_shown htext hlegible
  rw [htexts, Option.all_some, Bool.not_eq_true'] at hfuses
  exact ⟨c, hc, v, hv, htag, htext, hlegible, hlength, hiff.mpr hfuses⟩

/-- A space is read between two parts of a word that are shown as one. -/
theorem saved_read_apart : ∃ c ∈ saved, ∃ v ∈ c.visits,
    staticText v.element = some "Save d" ∧
    shownText? Reference.common v.element = some "Saved" := by
  decide +kernel

end Markup

end Trellis
