import Trellis.Contract.Member
import Trellis.Proofs.TypeText.Insertion

/-! # Comments in types

What a comment between two tokens of a type leaves as it is.

* `Seam.Admits` says that a text may stand at a seam as a comment that closes what it opens. A
  comment without marks may stand at any: `Seam.admits_of_plain`.
* `Seam.Within` says that a seam lies inside of an operand and does not decide on its shape.
* `Seam.readsAlike`: there a comment changes nothing that is read of the type. -/

namespace Trellis.TypeText

open Text.Blank

/-! ### What is read of a type with a comment -/

/-- A letter is no blank. -/
theorem isAlpha_of_isBlank {c : Char} (h : Text.isBlank c = true) : c.isAlpha = false := by
  rw [← Bool.not_eq_true]
  intro halpha
  have hrange : 65 ≤ c.toNat ∧ c.toNat ≤ 122 := by
    have halpha : (decide (c.val ≥ 'A'.val ∧ c.val ≤ 'Z'.val) ||
      (decide (c.val ≥ 'a'.val) && decide (c.val ≤ 'z'.val))) = true := halpha
    rw [Bool.or_eq_true, Bool.and_eq_true, decide_eq_true_eq, decide_eq_true_eq,
      decide_eq_true_eq] at halpha
    rcases halpha with ⟨hfrom, hto⟩ | ⟨hfrom, hto⟩
    · exact ⟨UInt32.le_iff_toNat_le.mp hfrom,
        Nat.le_trans (UInt32.le_iff_toNat_le.mp hto) (by decide)⟩
    · exact ⟨Nat.le_trans (by decide) (UInt32.le_iff_toNat_le.mp hfrom),
        UInt32.le_iff_toNat_le.mp hto⟩
  simp only [Text.isBlank, Bool.or_eq_true, Bool.and_eq_true, decide_eq_true_eq, beq_iff_eq] at h
  omega

/-- What is read of two types alike: all but their texts. -/
structure ReadsAlike (x x' : String) : Prop where
  /-- Both tell something. -/
  vague : PropMember.isVague x = false ∧ PropMember.isVague x' = false
  /-- Both are the truth values, or none is. -/
  boolean : x ≠ "boolean" ∧ x' ≠ "boolean"
  /-- Both admit `undefined`, or none does. -/
  undefined : includesUndefined x' = includesUndefined x
  /-- They have one shape. -/
  shape : TypeShape.classify x' = TypeShape.classify x

namespace Seam

variable (σ : Seam)

/-- Whether a text may stand at a seam as a comment that closes what it opens. -/
structure Admits (m : List Char) : Prop where
  /-- It is a comment. -/
  comment : IsComment m
  /-- A walk passes it. -/
  passes : σ.Passes m
  /-- The parentheses in it close each other. -/
  even : Even (σ.kept m)
  /-- It has no angle bracket. -/
  angle : '<' ∉ m ∧ '>' ∉ m

/-- Whether a seam lies inside of an operand, between `l` and `f`, which are left of it when blanks
and parentheses around it are taken off, and does not decide on its shape. -/
structure Within (g l f : List Char) : Prop where
  /-- What is left of the operand. -/
  bare : TypeText.bare (σ.operand g) = l ++ (σ.kept g ++ f)
  /-- Around it stand only blanks and parentheses. -/
  framed : ∃ w z, Framed w z ∧ lastPiece .start (keptStart σ.before) = w ++ l ∧
    firstPiece σ.scan (keptEnd σ.after) = f ++ z
  /-- A token stands before the place. -/
  left : Tight l ∧ l ≠ []
  /-- A token stands behind the place. -/
  right : Tight f ∧ f ≠ []
  /-- The shape is decided elsewhere. -/
  decided : Decided l (σ.kept g) f
  /-- No word goes on over the place. -/
  word : ¬ JoinsWord (l ++ σ.kept g) f
  /-- The brackets of a list do not go on over the place. -/
  brackets : ¬ JoinsBrackets (l ++ σ.kept g) f

variable {σ} {g m l f : List Char}

theorem isGap_kept (hg : IsGap g) : IsGap (σ.kept g) := by
  rw [kept]
  split
  · rw [isGap_trimStart, isGap_squeeze]
    exact hg
  · rw [isGap_squeeze]
    exact hg

/-- A gap is passed. -/
theorem passes_gap (hg : IsGap g) : σ.Passes g where
  head h := by
    have := hg _ (List.mem_of_mem_head? h)
    exact absurd this (by decide)
  kept := .blanks (isGap_kept hg) _

/-- What is kept of a comment ends in a slash or a blank. -/
theorem Admits.last (h : σ.Admits m) {c : Char} (hc : (σ.kept m).getLast? = some c) :
    c.isAlpha = false ∧ c ≠ '[' := by
  have hsqueeze : (squeeze m).getLast? = some c := by
    rw [kept] at hc
    split at hc
    · exact getLast?_trimStart hc
    · exact hc
  cases hblank : Text.isBlank c with
  | true =>
      refine ⟨isAlpha_of_isBlank hblank, ?_⟩
      rintro rfl
      exact absurd hblank (by decide)
  | false =>
      have hlast := getLast?_squeeze hblank hsqueeze
      obtain ⟨gap, x, gap', rfl, -, hgap', -, hend⟩ := h.comment
      rw [List.getLast?_append, List.getLast?_append] at hlast
      rcases List.eq_nil_or_concat' gap' with rfl | ⟨init, y, rfl⟩
      · rw [hend rfl] at hlast
        cases hlast
        decide
      · rw [List.getLast?_concat] at hlast
        cases hlast
        rw [hgap' c (List.mem_append_right _ List.mem_cons_self)] at hblank
        cases hblank

/-- A comment without marks may stand anywhere. -/
theorem admits_of_plain (h : IsComment m) (hm : ∀ c ∈ m, c ∉ marks) : σ.Admits m := by
  have hkept : ∀ c ∈ σ.kept m, c ∉ marks := fun c hc => by
    cases hblank : Text.isBlank c with
    | true => exact notMem_marks_of_isBlank hblank
    | false => exact hm c ((mem_kept hblank).mp hc)
  refine ⟨h, ⟨fun hhead => ?_, .plain hkept _⟩, .of_forall fun c hc => ?_,
    fun hc => ?_, fun hc => ?_⟩
  · exact hm _ (List.mem_of_mem_head? hhead) (by decide)
  · constructor <;> (rintro rfl; exact hkept _ hc (by decide))
  · exact hm _ hc (by decide)
  · exact hm _ hc (by decide)

/-- Nothing goes on over a comment. -/
theorem Admits.not_joins (h : σ.Admits m) (l f : List Char) :
    ¬ JoinsWord (l ++ σ.kept m) f ∧ ¬ JoinsBrackets (l ++ σ.kept m) f := by
  have hne : σ.kept m ≠ [] :=
    List.ne_nil_of_mem ((mem_kept (by decide)).mpr h.comment.slash_mem)
  have hlast := h.last (List.getLast?_eq_some_getLast hne)
  rw [JoinsWord, JoinsBrackets, List.getLast?_append, List.getLast?_eq_some_getLast hne,
    Option.some_or]
  refine ⟨?_, fun hjoin => hlast.2 (Option.some.inj hjoin.1)⟩
  rintro ⟨⟨c, hc, halpha⟩, -⟩
  cases hc
  rw [hlast.1] at halpha
  cases halpha

/-- The operand at a seam within it, with a comment there. -/
theorem Within.bare_comment (h : σ.Within g l f) (hg : IsGap g) (hm : σ.Admits m) :
    TypeText.bare (σ.operand m) = l ++ (σ.kept m ++ f) := by
  obtain ⟨w, z, hframed, hlast, hfirst⟩ := h.framed
  have hoperand (x : List Char) : σ.operand x = w ++ (l ++ (σ.kept x ++ (f ++ z))) := by
    rw [operand, hlast, hfirst, List.append_assoc]
  rw [hoperand]
  exact bare_insert h.left h.right (.blanks (isGap_kept hg)) hm.even hframed
    (hoperand g ▸ h.bare)

/-- The shape of the operand at a seam within it is the same with a comment there. -/
theorem Within.shapeOfMember_eq (h : σ.Within g l f) (hσ : σ.IsOpen) (hg : IsGap g)
    (hm : σ.Admits m) : shapeOfMember (TypeText.bare (σ.operand m)) =
      shapeOfMember (TypeText.bare (σ.operand g)) := by
  obtain ⟨w, z, hframed, hlast, -⟩ := h.framed
  obtain ⟨d, hd⟩ := settled_left hσ hframed h.left.2 hlast
  have hgap : ∀ c ∈ marks, c ∉ σ.kept g := fun c hc hmem =>
    notMem_marks_of_isBlank (isGap_kept hg c hmem) hc
  have harrow : hasTopArrow .start (l ++ (σ.kept m ++ f)) =
      hasTopArrow .start (l ++ (σ.kept g ++ f)) := by
    rw [hasTopArrow_insert hd hm.passes.kept (mt (mem_kept (by decide)).mp hm.angle.2),
      hasTopArrow_insert hd (passes_gap hg).kept (hgap '>' (by decide))]
  rw [h.bare_comment hg hm, h.bare]
  exact h.decided.shapeOfMember_eq h.left h.right harrow (hgap '<' (by decide))
    ⟨mt (mem_kept (by decide)).mp hm.angle.1, (mem_kept (by decide)).mpr hm.comment.slash_mem⟩
    h.word (hm.not_joins l f).1 h.brackets (hm.not_joins l f).2

end Seam

theorem Decided.exists_mark {l g f : List Char} (h : Decided l g f) :
    ∃ c ∈ l ++ (g ++ f), isNameChar c = false := by
  have hleft {c : Char} (hc : c ∈ l) : c ∈ l ++ (g ++ f) := List.mem_append_left _ hc
  cases h with
  | callback h =>
      refine ⟨'>', ?_, by decide⟩
      by_contra hno
      rw [hasTopArrow_of_no_angle hno] at h
      cases h
  | list h =>
      exact ⟨']', List.mem_append_right _ (List.mem_append_right _ (h.mem (by decide))), by decide⟩
  | opened h =>
      rcases h with h | h | h
      · exact ⟨_, hleft (List.mem_of_mem_head? h), by decide⟩
      · exact ⟨_, hleft (List.mem_of_mem_head? h), by decide⟩
      · exact ⟨_, hleft (List.mem_of_mem_head? h), by decide⟩
  | named _ _ hname =>
      rcases hname with hangle | ⟨-, c, hc, hchar⟩
      · exact ⟨'<', hleft hangle, by decide⟩
      · have hmem := mem_of_mem_trimStart (mem_of_mem_trimEnd hc)
        exact ⟨c, (List.takeWhile_prefix _).mem hmem, hchar⟩

theorem mem_of_mem_bare {c : Char} {s : List Char} (h : c ∈ bare s) : c ∈ s :=
  List.count_pos_iff.mp
    (Nat.lt_of_lt_of_le (List.count_pos_iff.mpr h) ((encloses_bare s).count_le c))

/-- The shapes of the members that some pieces of a text are. -/
def shapesOf (pieces : List (List Char)) : List TypeShape :=
  (((pieces.map bare).filter (! ·.isEmpty)).filter (! isNullish ·)).map shapeOfMember

section pieces
variable {y : String} {o : List Char} {before behind : List (List Char)} {c : Char}
  (hy : splitBars .start y.toList = before ++ o :: behind) (hc : c ∈ bare o)
  (hchar : isNameChar c = false)
include hy hc hchar

/-- The shape of a type depends on that of each operand with a mark. -/
theorem classify_eq : TypeShape.classify y =
    TypeShape.agree (shapesOf before ++ shapeOfMember (bare o) :: shapesOf behind) := by
  have hnullish : isNullish (bare o) = false := by
    have hne {word : List Char} (hword : word.all isNameChar = true) :
        decide (bare o = word) = false := decide_eq_false fun heq => by
      rw [List.all_eq_true.mp hword c (heq ▸ hc)] at hchar
      cases hchar
    rw [isNullish, hne (by decide), hne (by decide), Bool.or_self]
  have hempty : (bare o).isEmpty = false := List.isEmpty_eq_false_iff.mpr (List.ne_nil_of_mem hc)
  have hshapes : shapesOf (before ++ o :: behind) =
      shapesOf before ++ shapeOfMember (bare o) :: shapesOf behind := by
    simp only [shapesOf, List.map_append, List.map_cons, List.filter_append, List.filter_cons,
      hempty,
      hnullish, Bool.not_false, if_true]
  rw [← hshapes, ← hy]
  rfl

/-- A type of which an operand has a mark is no word, so it tells something. -/
theorem tells : PropMember.isVague y = false ∧ y ≠ "boolean" := by
  have hne {word : String} (hword : word.toList.all isNameChar = true)
      (hsplit : splitBars .start word.toList = [word.toList]) : y ≠ word := by
    rintro rfl
    rw [hsplit, List.singleton_eq_append_iff] at hy
    have ho : o = y.toList := by
      rcases hy with ⟨-, ho⟩ | ⟨-, ho⟩
      · exact (List.cons.inj ho).1
      · cases ho
    rw [List.all_eq_true.mp hword c (ho ▸ mem_of_mem_bare hc)] at hchar
    cases hchar
  refine ⟨?_, hne (by decide) (by decide)⟩
  rw [PropMember.isVague, decide_eq_false (hne (by decide) (by decide)),
    decide_eq_false (hne (by decide) (by decide)), decide_eq_false (hne (by decide) (by decide))]
  rfl

end pieces

/-- Within an operand a comment changes nothing that is read of the type. -/
theorem Seam.readsAlike {σ : Seam} {g m l f : List Char} (hσ : σ.IsOpen) (hg : IsGap g)
    (hm : σ.Admits m) (h : σ.Within g l f) :
    ReadsAlike (normalize (σ.text g)) (normalize (σ.text m)) := by
  obtain ⟨c, hc, hchar⟩ := h.decided.exists_mark
  rw [← h.bare] at hc
  have hslash := slash_mem_operand (σ := σ) hm.comment
  have hgap := splitBars_text hσ (passes_gap hg)
  have hcomment := splitBars_text hσ hm.passes
  have htells := tells hgap hc hchar
  have htells' := tells hcomment hslash (by decide)
  refine ⟨⟨htells.1, htells'.1⟩, ⟨htells.2, htells'.2⟩, ?_, ?_⟩
  · rw [Bool.eq_iff_iff, includesUndefined_comment hσ hm.passes hm.comment,
      includesUndefined_iff hσ (passes_gap hg), or_iff_right]
    intro hundefined
    rw [List.all_eq_true.mp (show "undefined".toList.all isNameChar = true by decide) c
      (hundefined ▸ hc)] at hchar
    cases hchar
  · rw [classify_eq hcomment hslash (by decide), classify_eq hgap hc hchar,
      h.shapeOfMember_eq hσ hg hm]

end Trellis.TypeText
