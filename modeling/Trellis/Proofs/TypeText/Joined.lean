import Trellis.Proofs.TypeText.Comments

/-! # Unions of texts

What is read of texts of types that are joined by bars.

* `Balanced` says that a walk through a text ends outside of brackets and literals and meets no bar
  there. `members_union`: the members of a union of such texts are what is left of each, in order.
* `TypeShape.agree_congr`: the kind on which shapes agree depends neither on their order nor on how
  often each of them is there.
* `Padded` puts `undefined` and `null` among the texts, which changes no shape. -/

namespace Trellis

/-! ### Agreement -/

namespace TypeShape

/-- A shape without its literal. -/
def plain : TypeShape → TypeShape
  | string _ => string none
  | number _ => number none
  | shape => shape

theorem sameKind_iff {a b : TypeShape} : sameKind a b = true ↔ a.plain = b.plain := by
  cases a <;> cases b <;> simp [sameKind, plain]

/-- Shapes of one kind agree on it. -/
theorem plain_agree {shapes : List TypeShape} {shape : TypeShape} (hmem : shape ∈ shapes)
    (h : ∀ x ∈ shapes, x.plain = shape.plain) : (agree shapes).plain = shape.plain := by
  cases shapes with
  | nil => cases hmem
  | cons first rest =>
      have hfirst := h first List.mem_cons_self
      rw [agree_cons fun x hx =>
        sameKind_iff.mpr ((h x (List.mem_cons_of_mem _ hx)).trans hfirst.symm), hfirst]

/-- Shapes of several kinds agree on nothing. -/
theorem agree_of_ne {shapes : List TypeShape} {shape : TypeShape} (hmem : shape ∈ shapes)
    (h : ¬ ∀ x ∈ shapes, x.plain = shape.plain) : agree shapes = unknown := by
  cases shapes with
  | nil => cases hmem
  | cons first rest =>
      rw [agree, if_neg]
      intro hall
      have hfirst (x : TypeShape) (hx : x ∈ first :: rest) : x.plain = first.plain := by
        rcases List.mem_cons.mp hx with rfl | hx
        · rfl
        · exact sameKind_iff.mp (List.all_eq_true.mp hall x hx)
      exact h fun x hx => (hfirst x hx).trans (hfirst shape hmem).symm

/-- The kind on which shapes agree depends neither on their order nor on how often each is there. -/
theorem agree_congr {xs ys : List TypeShape} (h : ∀ shape, shape ∈ xs ↔ shape ∈ ys) :
    (agree xs).plain = (agree ys).plain := by
  cases xs with
  | nil =>
      obtain rfl : ys = [] := List.eq_nil_iff_forall_not_mem.mpr fun y hy =>
        absurd ((h y).mpr hy) List.not_mem_nil
      rfl
  | cons first rest =>
      have hx : first ∈ first :: rest := List.mem_cons_self
      have hy : first ∈ ys := (h first).mp hx
      by_cases hall : ∀ x ∈ first :: rest, x.plain = first.plain
      · rw [plain_agree hx hall, plain_agree hy fun y hy => hall y ((h y).mpr hy)]
      · rw [agree_of_ne hx hall, agree_of_ne hy fun hys => hall fun x hx => hys x ((h x).mp hx)]

end TypeShape

namespace TypeText

/-! ### Pieces between bars -/

/-- Whether a walk through a text ends outside of brackets and literals and meets no bar there. -/
structure Balanced (cs : List Char) : Prop where
  /-- It ends outside of brackets and literals. -/
  ends : (Scan.start.run cs).isTop = true
  /-- It meets no bar there. -/
  barless : Scan.start.Barless cs

instance (cs : List Char) : Decidable (Balanced cs) :=
  decidable_of_iff (_ ∧ _) ⟨fun h => ⟨h.1, h.2⟩, fun h => ⟨h.ends, h.barless⟩⟩

/-- Behind a bar outside of brackets and literals a text is cut as from its start. -/
theorem splitBars_bar_eq {s : Scan} (hs : s.isTop = true) (rest : List Char) :
    splitBars s ('|' :: rest) = [] :: splitBars .start rest := by
  obtain ⟨depth, quote, previous⟩ := s
  simp only [Scan.isTop, Bool.and_eq_true, Option.isNone_iff_eq_none, decide_eq_true_eq] at hs
  obtain ⟨rfl, rfl⟩ := hs
  rw [splitBars_cons, if_pos (by rfl)]
  have hsettled : (Scan.step ⟨0, none, previous⟩ '|').Settled 0 :=
    ⟨rfl, rfl, show '|' ≠ '=' by decide⟩
  rw [hsettled.splitBars_eq Scan.settled_start]

/-- Texts with bars between them are cut into these texts. -/
theorem splitBars_intercalate {texts : List (List Char)} (hne : texts ≠ [])
    (h : ∀ t ∈ texts, Balanced t) : splitBars .start (List.intercalate ['|'] texts) = texts := by
  induction texts with
  | nil => exact absurd rfl hne
  | cons t texts ih =>
      obtain ⟨ht, htexts⟩ := List.forall_mem_cons.mp h
      cases texts with
      | nil =>
          have hpieces := splitBars_of_barless ht.barless []
          rw [List.append_nil, splitBars, attach, List.append_nil] at hpieces
          rw [List.intercalate_singleton, hpieces]
      | cons u texts =>
          rw [List.intercalate_cons_cons, List.append_assoc, List.singleton_append,
            splitBars_of_barless ht.barless, splitBars_bar_eq ht.ends,
            ih (List.cons_ne_nil u texts) htexts, attach, List.append_nil]

/-! ### Unions -/

/-- The union of some types: their texts with bars between them. -/
def union (texts : List String) : String := String.intercalate "|" texts

theorem toList_union (texts : List String) :
    (union texts).toList = List.intercalate ['|'] (texts.map String.toList) :=
  String.toList_intercalate

/-- The members of a union are what is left of its texts, in order, unless that is nothing. -/
theorem members_union {texts : List String} (h : ∀ t ∈ texts, Balanced t.toList) :
    members (union texts).toList =
      ((texts.map String.toList).map bare).filter (! ·.isEmpty) := by
  rw [members, toList_union]
  cases texts with
  | nil => rfl
  | cons t texts =>
      rw [splitBars_intercalate (by rw [List.map_cons]; exact List.cons_ne_nil _ _)
        (List.forall_mem_map.mpr h)]

theorem classify_union_eq {texts : List String} (h : ∀ t ∈ texts, Balanced t.toList) :
    TypeShape.classify (union texts) = TypeShape.agree (shapesOf (texts.map String.toList)) := by
  rw [TypeShape.classify, members_union h]
  rfl

theorem shapesOf_cons (piece : List Char) (pieces : List (List Char)) :
    shapesOf (piece :: pieces) = shapesOf [piece] ++ shapesOf pieces := by
  rw [← List.singleton_append]
  simp only [shapesOf, List.map_append, List.filter_append]

/-- Which shapes there are depends on which texts there are. -/
theorem mem_shapesOf_congr {texts texts' : List String} (h : ∀ t, t ∈ texts' ↔ t ∈ texts)
    (shape : TypeShape) : shape ∈ shapesOf (texts'.map String.toList) ↔
      shape ∈ shapesOf (texts.map String.toList) := by
  simp only [shapesOf, List.mem_map, List.mem_filter, h]

/-! ### Absent values -/

/-- Whether a text stands for an absent value: `undefined` or `null`, perhaps between blanks and in
parentheses. -/
structure StandsForAbsent (text : String) : Prop where
  /-- A walk ends outside of brackets and literals and meets no bar there. -/
  balanced : Balanced text.toList
  /-- What is left of it is one of the two words. -/
  isNullish : isNullish (bare text.toList) = true

/-- Whether `us` is `ts` with texts for absent values put in at any places. -/
inductive Padded : (ts us : List String) → Prop
  | nil : Padded [] []
  | keep (t : String) {ts us : List String} (h : Padded ts us) : Padded (t :: ts) (t :: us)
  | put {n : String} (hn : StandsForAbsent n) {ts us : List String} (h : Padded ts us) :
      Padded ts (n :: us)

theorem StandsForAbsent.shapesOf_eq {n : String} (h : StandsForAbsent n) :
    shapesOf [n.toList] = [] := by
  rw [shapesOf, List.map_singleton]
  have hne : (bare n.toList).isEmpty = false := by
    cases hbare : bare n.toList with
    | nil => have := h.isNullish; rw [hbare] at this; cases this
    | cons c cs => rfl
  simp [hne, h.isNullish]

theorem Padded.balanced {ts us : List String} (h : Padded ts us)
    (hts : ∀ t ∈ ts, Balanced t.toList) : ∀ u ∈ us, Balanced u.toList := by
  induction h with
  | nil => exact hts
  | keep t _ ih =>
      obtain ⟨ht, hts⟩ := List.forall_mem_cons.mp hts
      exact List.forall_mem_cons.mpr ⟨ht, ih hts⟩
  | put hn _ ih => exact List.forall_mem_cons.mpr ⟨hn.balanced, ih hts⟩

theorem Padded.shapesOf_eq {ts us : List String} (h : Padded ts us) :
    shapesOf (us.map String.toList) = shapesOf (ts.map String.toList) := by
  induction h with
  | nil => rfl
  | keep t _ ih => rw [List.map_cons, List.map_cons, shapesOf_cons, ih, ← shapesOf_cons]
  | put hn _ ih => rw [List.map_cons, shapesOf_cons, hn.shapesOf_eq, List.nil_append, ih]

/-- A union of balanced texts has what is left of each text that is not blank for its members, in
order. Texts in another order, or some of them more than once, make a union of the same kind, and
`undefined` and `null` may be put in at any places without a change of the shape. -/
theorem union_unordered {texts : List String} (h : ∀ t ∈ texts, Balanced t.toList) :
    unionMembers (union texts) =
        (texts.map fun t => String.ofList (bare t.toList)).filter (· ≠ "") ∧
      (∀ texts', (∀ t, t ∈ texts' ↔ t ∈ texts) → TypeShape.sameKind
        (TypeShape.classify (union texts')) (TypeShape.classify (union texts)) = true) ∧
      ∀ texts', Padded texts texts' →
        TypeShape.classify (union texts') = TypeShape.classify (union texts) := by
  refine ⟨?_, fun texts' hmem => ?_, fun texts' hpadded => ?_⟩
  · have hblank (t : String) : (!(bare t.toList).isEmpty) =
        decide (String.ofList (bare t.toList) ≠ "") := by
      cases bare t.toList <;> simp
    simp only [unionMembers, members_union h, List.map_map, List.filter_map, Function.comp_def,
      hblank]
  · rw [classify_union_eq h, classify_union_eq fun t ht => h t ((hmem t).mp ht),
      TypeShape.sameKind_iff]
    exact TypeShape.agree_congr (mem_shapesOf_congr hmem)
  · rw [classify_union_eq h, classify_union_eq (hpadded.balanced h), hpadded.shapesOf_eq]

namespace Labels

/-- Labels with a bar, an arrow and an escaped quote in them, one of them in parentheses. -/
def texts : List String := ["'sm | lg'", " ( \"m=>d\" )", "'it\\'s'"]

/-- The same labels in another order, one of them twice. -/
def shuffled : List String := ["'it\\'s'", "'sm | lg'", "'it\\'s'", " ( \"m=>d\" )"]

/-- The labels with absent values between them. -/
def padded : List String := [" (null)", "'sm | lg'", " ( \"m=>d\" )", "undefined ", "'it\\'s'"]

theorem balanced : ∀ t ∈ texts, Balanced t.toList := by decide

theorem mem_shuffled (t : String) : t ∈ shuffled ↔ t ∈ texts := by
  simp only [shuffled, texts, List.mem_cons, List.not_mem_nil, or_false]
  tauto

theorem padded_texts : Padded texts padded :=
  .put ⟨by decide, by decide⟩ (.keep _ (.keep _ (.put ⟨by decide, by decide⟩ (.keep _ .nil))))

end Labels

open Labels in
theorem union_unordered_labels : (∀ t ∈ texts, Balanced t.toList) ∧
    unionMembers (union texts) = ["'sm | lg'", "\"m=>d\"", "'it\\'s'"] ∧
    TypeShape.sameKind (TypeShape.classify (union shuffled)) (TypeShape.classify (union texts)) ∧
    TypeShape.classify (union padded) = TypeShape.classify (union texts) := by
  obtain ⟨hmembers, hkind, hshape⟩ := union_unordered balanced
  refine ⟨balanced, ?_, hkind shuffled mem_shuffled, hshape padded padded_texts⟩
  rw [hmembers]
  decide

/-- A text that is blank, as in front of a leading bar, is no member. -/
theorem blank_text_left_out : (∀ t ∈ ["", "'sm'"], Balanced t.toList) ∧
    unionMembers (union ["", "'sm'"]) ≠
      ["", "'sm'"].map fun t => String.ofList (bare t.toList) := by decide

end TypeText

end Trellis
