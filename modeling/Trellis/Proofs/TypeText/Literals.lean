import Trellis.Proofs.Decimal.Numeral
import Trellis.Proofs.TypeText.Unions

/-! # Literals as mock values

A prop whose type is a union of literals gets the first of them as its value.

* `classify_union`: the shape of a union is that on which the operands that are no absent values
  agree.
* `literals_kept`: of a union of texts, or of numbers, the first literal is kept, with its blanks
  squeezed. What is kept of another type is one literal, or a union in parentheses that begins and
  ends with one.
* `grouped_literals_kept`: such a union is kept as a whole, and is no value of the type. -/

namespace Trellis.TypeText

open Text.Blank

/-! ### Operands that stand for a value -/

/-- Whether an operand is an absent value, perhaps in parentheses. -/
def Operand.isAbsent (o : Operand) : Bool :=
  match o.peel with
  | .word w => w.chars = "undefined".toList || w.chars = "null".toList
  | _ => false

/-- The operands of a union. -/
def TypeExpr.operands : TypeExpr → List Operand
  | .function _ _ => []
  | .union first rest => first :: rest

/-- The operands of a union that are no absent values. -/
def TypeExpr.present (t : TypeExpr) : List Operand := t.operands.filter (! ·.isAbsent)

theorem Operand.is_iff_of_peel {o : Operand} {w : Word} (h : o.peel = .word w) {x : String} :
    o.Is x ↔ w.chars = x.toList := by
  rw [Operand.Is, h]
  constructor
  · rintro ⟨_, ⟨⟩, hw⟩
    exact hw
  · exact fun hw => ⟨w, rfl, hw⟩

theorem Operand.isAbsent_iff {o : Operand} :
    o.isAbsent = true ↔ o.Is "undefined" ∨ o.Is "null" := by
  rw [isAbsent]
  split
  · next w hw =>
    rw [is_iff_of_peel hw, is_iff_of_peel hw, Bool.or_eq_true, decide_eq_true_eq,
      decide_eq_true_eq]
  · next hnot =>
    refine ⟨fun h => absurd h Bool.false_ne_true, ?_⟩
    rintro (⟨w, hw, -⟩ | ⟨w, hw, -⟩) <;> exact absurd hw (hnot w)

section Shapes

variable {f : Literal → Literal} {o : Operand} {t : TypeExpr} {text : String} {p : List Char}

theorem isNullish_bare (hp : Spells f o.tokens p) : isNullish (bare p) = o.isAbsent := by
  rw [Bool.eq_iff_iff, isNullish_iff hp, Operand.isAbsent_iff]

/-- The shape of a union is that on which the pieces of its present operands agree. -/
theorem classify_union {first : Operand} {rest : List Operand}
    (hclose : AllClose f (TypeExpr.union first rest).tokens)
    (h : (TypeExpr.union first rest).WrittenAs f text) : ∃ pieces,
      List.Forall₂ (fun o p => Spells f o.tokens p) (TypeExpr.union first rest).present pieces ∧
      TypeShape.classify text = TypeShape.agree (pieces.map fun p => shapeOfMember (bare p)) := by
  obtain ⟨head, pieces, hmembers, hhead, hall⟩ := members_spells hclose h
  refine ⟨(head :: pieces).filter fun p => ! isNullish (bare p), ?_, ?_⟩
  · refine List.rel_filter (fun o p hp => ?_) (List.Forall₂.cons hhead hall)
    dsimp only
    rw [isNullish_bare hp]
  · rw [TypeShape.classify, hmembers, ← List.map_cons, List.filter_map, List.map_map]
    rfl

/-- What holds of the shape of each operand holds of the shapes of all pieces. -/
theorem forall_shapes {os : List Operand} {pieces : List (List Char)}
    (hall : List.Forall₂ (fun o p => Spells f o.tokens p) os pieces) {P : TypeShape → Prop}
    (h : ∀ o ∈ os, ∀ p, Spells f o.tokens p → P (shapeOfMember (bare p))) :
    ∀ shape ∈ pieces.map fun p => shapeOfMember (bare p), P shape := by
  induction hall with
  | nil => exact fun _ hs => absurd hs List.not_mem_nil
  | cons hp _ ih =>
      rw [List.forall_mem_cons] at h
      rw [List.map_cons, List.forall_mem_cons]
      exact ⟨h.1 _ hp, ih h.2⟩

/-! ### Literals -/

theorem hasTopArrow_of_passes {cs : List Char} (h : Passes 0 cs) :
    hasTopArrow .start cs = false := by
  have := hasTopArrow_of_quiet (h _ Scan.settled_start).1 []
  rwa [List.append_nil] at this

theorem getLast?_of_brackets {s : List Char} (h : "[]".toList.isSuffixOf s = true) :
    s.getLast? = some ']' := by
  obtain ⟨init, rfl⟩ := List.isSuffixOf_iff_suffix.mp h
  rw [List.getLast?_append]
  rfl

/-- What is neither a function nor a list nor a record, but quoted, is kept. -/
theorem shapeOfMember_quoted {s : List Char} (harrow : hasTopArrow .start s = false)
    (hlast : s.getLast? ≠ some ']') (hhead : s.head? ≠ some '[' ∧ s.head? ≠ some '\x7b')
    (hquoted : isStringLiteral s = true) :
    shapeOfMember s = .string (some (String.ofList s)) := by
  have hlist : ¬ ("[]".toList.isSuffixOf s || s.head? = some '[') = true := by
    rw [Bool.or_eq_true, decide_eq_true_eq]
    exact not_or.mpr ⟨mt getLast?_of_brackets hlast, hhead.1⟩
  rw [shapeOfMember, harrow, if_neg Bool.false_ne_true, if_neg hlist, if_neg hhead.2,
    if_pos hquoted]

theorem Literal.getLast?_chars (l : Literal) : l.chars.getLast? = some l.quote := by
  rw [Literal.chars, ← List.cons_append, List.getLast?_concat]

/-- A literal is kept. -/
theorem shapeOfMember_chars {l : Literal} (h : l.Closes) :
    shapeOfMember l.chars = .string (some (String.ofList l.chars)) := by
  have hquoted : isStringLiteral l.chars = true := by
    have hquote : (l.quote = '\'' || l.quote = '"') = true := by
      rcases l.isQuote with hq | hq <;> rw [hq] <;> rfl
    rw [Literal.chars, isStringLiteral, hquote, Bool.true_and, decide_eq_true_eq,
      List.getLast?_concat]
  have hne {c : Char} (h : c ≠ '\'') (h' : c ≠ '"') : some l.quote ≠ some c :=
    fun heq => l.quote_ne h h' (Option.some.inj heq)
  refine shapeOfMember_quoted (hasTopArrow_of_passes (.literal h)) ?_ ⟨?_, ?_⟩ hquoted
  · rw [l.getLast?_chars]
    exact hne (by decide) (by decide)
  · exact hne (by decide) (by decide)
  · exact hne (by decide) (by decide)

/-- A number is kept. -/
theorem shapeOfMember_numeral {w : Word} {n : Decimal.Numeral} (h : w.chars = n.chars) :
    shapeOfMember w.chars = .number (some (String.ofList w.chars)) := by
  have hno {c : Char} (hc : isWordChar c = false) : c ∉ w.chars := fun hmem => by
    rw [w.plain c hmem] at hc
    cases hc
  have hhead {c : Char} (hc : isWordChar c = false) : w.chars.head? ≠ some c :=
    fun heq => hno hc (List.mem_of_mem_head? heq)
  have hlist : ¬ ("[]".toList.isSuffixOf w.chars || w.chars.head? = some '[') = true := by
    rw [Bool.or_eq_true, decide_eq_true_eq]
    refine not_or.mpr ⟨fun hsuffix => ?_, hhead (by rfl)⟩
    exact hno (c := ']') (by rfl) (List.mem_of_getLast? (getLast?_of_brackets hsuffix))
  have hquoted : isStringLiteral w.chars = false := by
    obtain ⟨c, cs, hc⟩ := List.exists_cons_of_ne_nil w.nonempty
    have hsingle := hhead (c := '\'') (by rfl)
    have hdouble := hhead (c := '"') (by rfl)
    rw [hc, List.head?_cons, ne_eq, Option.some.injEq] at hsingle hdouble
    rw [hc, isStringLiteral, decide_eq_false hsingle, decide_eq_false hdouble, Bool.or_self,
      Bool.false_and]
  have hnumber : (Decimal.Binary.read? w.chars).isSome = true := h ▸ n.isSome_read?
  rw [shapeOfMember, hasTopArrow_of_passes (.word w 0), if_neg Bool.false_ne_true, if_neg hlist,
    if_neg (hhead (by rfl)), hquoted, if_neg Bool.false_ne_true, if_neg (hhead (by rfl)),
    if_pos hnumber]

/-! ### Unions in parentheses -/

/-- A quote that is not escaped does not stand in the content of a literal. -/
theorem isContent_append_quote {q : Char} (hq : q ≠ '\\') {s : List Char}
    (h : isContent q s = true) (rest : List Char) : isContent q (s ++ q :: rest) = false := by
  fun_induction isContent q s with
  | case1 => rw [List.nil_append, isContent_cons hq, decide_eq_false (not_not_intro rfl)]; rfl
  | case2 c s ih =>
      rw [List.cons_append, List.cons_append, isContent]
      exact ih h
  | case3 c s _ ih =>
      rw [Bool.and_eq_true, Bool.and_eq_true, decide_eq_true_eq, decide_eq_true_eq] at h
      rw [List.cons_append, isContent_cons h.1.2, ih h.2, Bool.and_false]

/-- A literal is not the beginning of another one. -/
theorem Literal.eq_nil_of_chars {l l' : Literal} {rest : List Char}
    (h : l.chars = l'.chars ++ rest) : rest = [] := by
  rcases List.eq_nil_or_concat rest with hrest | ⟨init, c, hrest⟩
  · exact hrest
  · exfalso
    have hlast := l.getLast?_chars
    rw [h, hrest, List.concat_eq_append, ← List.append_assoc, List.getLast?_concat,
      Option.some.injEq] at hlast
    rw [hrest, hlast, Literal.chars, Literal.chars, List.cons_append, List.cons.injEq,
      List.concat_eq_append, ← List.append_assoc] at h
    have hcontent := List.append_cancel_right h.2
    have hback : l.quote ≠ '\\' := l.quote_ne (by decide) (by decide)
    have hfalse := isContent_append_quote hback (h.1 ▸ l'.isContent) init
    have htrue := l.isContent
    rw [hcontent, ← h.1, List.append_assoc, List.singleton_append, hfalse] at htrue
    cases htrue

theorem Token.eq_of_head {u : Token} (hu : u.starts = true) (h : (u.chars f).head? = some '(') :
    u = .opening .round := by
  cases u with
  | word w => exact absurd (w.plain '(' (List.mem_of_mem_head? h)) (by decide)
  | literal l => exact absurd (Option.some.inj h) ((f l).quote_ne (by decide) (by decide))
  | opening k => cases k <;> first | rfl | simp [Token.chars, Bracket.opening] at h
  | _ => cases hu

/-- Nothing is taken off a union of several operands. -/
theorem bare_of_bar {ts : List Token} (hp : Spells f (o.tokens ++ .bar :: ts) p)
    (hbalanced : AllBalanced f o.tokens) : bare p = trim p := by
  obtain ⟨u, us, hfirst, hu⟩ := o.exists_first
  have hwoven := o.woven
  rw [hfirst] at hp hwoven hbalanced
  by_cases hround : u = .opening .round
  · subst hround
    cases hwoven with
    | @bracket _ _ inner us hinner _ =>
        rw [List.cons_append, List.append_assoc, List.cons_append] at hp
        refine bare_of_group hp hinner (fun l hl => hbalanced l ?_) (by simp)
        exact List.mem_cons_of_mem _ (List.mem_append_left _ hl)
  · exact bare_of_head hp fun hhead => hround (Token.eq_of_head hu hhead)

theorem Operand.peel_paren {u : TypeExpr} (h : o.peel = .paren u) :
    (∃ t, o = .paren t) ∧ ∀ m, u ≠ .union m [] := by
  fun_induction Operand.peel o with
  | case1 o ih => exact ⟨⟨_, rfl⟩, (ih h).2⟩
  | case2 o hnot => exact ⟨⟨u, h⟩, fun m hm => hnot m (by rw [h, hm])⟩

theorem isQuote_of_isStringLiteral {s : List Char} (h : isStringLiteral s = true) :
    ∃ q, (q = '\'' ∨ q = '"') ∧ s.head? = some q ∧ s.getLast? = some q := by
  cases s with
  | nil => cases h
  | cons q s =>
      rw [isStringLiteral, Bool.and_eq_true, Bool.or_eq_true, decide_eq_true_eq, decide_eq_true_eq,
        decide_eq_true_eq] at h
      exact ⟨q, h.1, rfl, by rw [List.getLast?_cons, h.2]; rfl⟩

/-- Only a text that begins with a literal is quoted. -/
theorem literal_of_quoted {u : Token} {ts : List Token} (hp : Spells f (u :: ts) p)
    (hu : u.starts = true) (hquoted : isStringLiteral (trim p) = true) : ∃ l, u = .literal l := by
  obtain ⟨q, hq, hhead, -⟩ := isQuote_of_isStringLiteral hquoted
  obtain ⟨rest, htrim, -, -⟩ := hp.trim
  rw [htrim, List.head?_append, List.head?_eq_some_head (u.chars_ne_nil f)] at hhead
  have hhead : (u.chars f).head? = some q := List.head?_eq_some_head (u.chars_ne_nil f) ▸ hhead
  cases u with
  | word w =>
      have hplain := w.plain q (List.mem_of_mem_head? hhead)
      rcases hq with rfl | rfl <;> exact absurd hplain (by decide)
  | literal l => exact ⟨l, rfl⟩
  | opening k =>
      rcases hq with rfl | rfl <;> cases k <;> simp [Token.chars, Bracket.opening] at hhead
  | _ => cases hu

/-- What is quoted of a union of several operands is no literal. -/
theorem ne_chars_of_bar {ts : List Token} (hp : Spells f (o.tokens ++ .bar :: ts) p)
    (hbalanced : AllBalanced f o.tokens) (hquoted : isStringLiteral (bare p) = true)
    (l : Literal) : bare p ≠ l.chars := by
  intro heq
  have hbare := bare_of_bar hp hbalanced
  -- The first operand would be a literal, and the kept one cannot be longer than it.
  obtain ⟨u, us, hfirst, hu⟩ := o.exists_first
  rw [hfirst, List.cons_append] at hp
  obtain ⟨l', rfl⟩ := literal_of_quoted hp hu (hbare ▸ hquoted)
  obtain ⟨rest, htrim, hrest, -⟩ := hp.trim
  have hnil : rest = [] := Literal.eq_nil_of_chars (heq.symm.trans (hbare.trans htrim))
  obtain ⟨a, b, hab, -, hb⟩ := Spells.append_iff.mp hrest
  rw [hnil] at hab
  exact hb.nonempty (List.append_eq_nil_iff.mp hab.symm).2

/-- Nothing is taken off a list type. -/
theorem bare_of_array {element : Operand} (hp : Spells f (Operand.array element).tokens p) :
    bare p = trim p ∧ (trim p).getLast? = some ']' := by
  have hlast : (trim p).getLast? = some ']' := by
    obtain ⟨u, us, hfirst, -⟩ := element.exists_first
    rw [Operand.tokens, hfirst, List.cons_append] at hp
    obtain ⟨hspells, htight⟩ := hp.of_trim
    rw [show u :: (us ++ [Token.opening .square, .closing .square]) =
      (u :: (us ++ [.opening .square])) ++ [.closing .square] by simp] at hspells
    rw [hspells.getLast? htight]
    rfl
  refine ⟨bare_of_unwrap?_eq_none ?_, hlast⟩
  cases hinner : unwrap? (trim p) with
  | none => rfl
  | some inner =>
      rw [eq_of_unwrap? hinner, ← List.cons_append, List.getLast?_concat] at hlast
      cases hlast

/-- What is kept of a function or of a union of several operands in parentheses is no literal. -/
theorem ne_chars_of_paren {u : TypeExpr} (hp : Spells f (Operand.paren u).tokens p)
    (hseveral : ∀ m, u ≠ .union m []) (hclose : AllClose f u.tokens)
    (hbalanced : AllBalanced f u.tokens) {x : String}
    (h : shapeOfMember (bare p) = .string (some x)) (l : Literal) : x ≠ String.ofList l.chars := by
  obtain ⟨rfl, hquoted, -⟩ := eq_of_shapeOfMember h
  obtain ⟨inner, hinner, hbare⟩ := bare_enclosed hp u.woven hbalanced
  rw [hbare] at h hquoted ⊢
  intro heq
  have hchars : bare inner = l.chars := by
    rw [← String.toList_ofList (l := bare inner), heq, String.toList_ofList]
  match u with
  | .function params result =>
      have hparams := TypeExpr.entryTokens_subset params result
      have hshape := (shapeOfMember_function (fun l hl => hclose l (hparams hl))
        (woven_entryTokens .comma params) (fun l hl => hbalanced l (hparams hl)) hinner).1
      rw [hshape] at h
      cases h
  | .union m [] => exact hseveral m rfl
  | .union m (m' :: ms) =>
      exact ne_chars_of_bar hinner (fun l hl => hbalanced l (List.mem_append_left _ hl)) hquoted l
        hchars

/-- What is kept of a present operand is one literal just when the operand is a literal. -/
theorem eq_chars_or_paren {x : String} (hclose : AllClose f o.tokens) (hbalanced : o.Balanced f)
    (hp : Spells f o.tokens p) (h : shapeOfMember (bare p) = .string (some x)) :
    (∃ l, o.peel = .literal l ∧ x = String.ofList (f l).chars) ∨
      (∃ u, o.peel = .paren u) ∧ ∀ l : Literal, x ≠ String.ofList l.chars := by
  obtain ⟨p', hp', hbare⟩ := o.bare_peel hp hbalanced
  obtain ⟨rfl, hquoted, -⟩ := eq_of_shapeOfMember h
  have hhead {u : Token} {ts : List Token} (hp' : Spells f (u :: ts) p') (hu : u.starts = true)
      (hround : u ≠ .opening .round) : ∃ l, u = .literal l := by
    refine literal_of_quoted hp' hu ?_
    rw [← bare_of_head hp' fun hhead => hround (Token.eq_of_head hu hhead), ← hbare]
    exact hquoted
  cases hpeel : o.peel with
  | literal l => exact .inl ⟨l, rfl, by rw [Operand.peel_literal hp hbalanced hpeel]⟩
  | word w =>
      rw [hpeel] at hp'
      obtain ⟨l, hl⟩ := hhead hp' rfl Token.noConfusion
      cases hl
  | generic name first rest =>
      rw [hpeel] at hp'
      obtain ⟨l, hl⟩ := hhead hp' rfl Token.noConfusion
      cases hl
  | object separator trailing entries =>
      rw [hpeel] at hp'
      obtain ⟨l, hl⟩ := hhead hp' rfl (by simp)
      cases hl
  | array element =>
      rw [hpeel] at hp'
      obtain ⟨htrim, hlast⟩ := bare_of_array hp'
      obtain ⟨q, hq, -, hlast'⟩ := isQuote_of_isStringLiteral hquoted
      rw [hbare, htrim, hlast, Option.some.injEq] at hlast'
      rcases hq with rfl | rfl <;> cases hlast'
  | paren u =>
      obtain ⟨⟨t, rfl⟩, hseveral⟩ := Operand.peel_paren hpeel
      have hsubset : u.tokens ⊆ (Operand.paren t).tokens := fun v hv =>
        (Operand.paren t).peel_tokens_subset (hpeel ▸ u.tokens_subset_paren hv)
      have hall : AllBalanced f u.tokens := fun l hl => by
        have hmem := (List.mem_cons.mp (hsubset hl)).resolve_left Token.noConfusion
        rcases List.mem_append.mp hmem with hmem | hmem
        · exact hbalanced t rfl l hmem
        · cases List.mem_singleton.mp hmem
      rw [hpeel] at hp'
      rw [hbare] at h
      exact .inr ⟨⟨u, rfl⟩, fun l => hbare ▸
        ne_chars_of_paren hp' hseveral (fun l hl => hclose l (hsubset hl)) hall h l⟩

/-! ### Unions of literals -/

theorem TypeExpr.present_tokens_subset (t : TypeExpr) :
    ∀ o ∈ t.present, o.tokens ⊆ t.tokens := by
  intro o ho
  have hmem := List.mem_of_mem_filter ho
  cases t with
  | function params result => exact absurd hmem List.not_mem_nil
  | union first rest =>
      rcases List.mem_cons.mp hmem with rfl | hmem
      · exact List.subset_append_left _ _
      · exact TypeExpr.later_tokens_subset (.union first rest) o hmem

/-- A union has the shape of its first present operand when the others are of its kind. -/
theorem classify_of_present {after : List Operand} {shape : TypeShape}
    (hclose : AllClose f t.tokens) (h : t.WrittenAs f text) (hpresent : t.present = o :: after)
    (hfirst : ∀ p, Spells f o.tokens p → shapeOfMember (bare p) = shape)
    (hrest : ∀ m ∈ after, ∀ p, Spells f m.tokens p →
      TypeShape.sameKind (shapeOfMember (bare p)) shape = true) :
    TypeShape.classify text = shape := by
  cases t with
  | function params result => cases hpresent
  | union first rest =>
      obtain ⟨pieces, hall, hclassify⟩ := classify_union hclose h
      rw [hpresent] at hall
      cases hall with
      | cons hp hall =>
          rw [hclassify, List.map_cons, hfirst _ hp]
          exact TypeShape.agree_cons
            (forall_shapes (P := fun s => TypeShape.sameKind s shape = true) hall hrest)

/-- A text is kept of the first present operand. -/
theorem exists_first_present {first : Operand} {rest : List Operand} {x : String}
    (hclose : AllClose f (TypeExpr.union first rest).tokens)
    (h : (TypeExpr.union first rest).WrittenAs f text)
    (hclassify : TypeShape.classify text = .string (some x)) :
    ∃ o after, (TypeExpr.union first rest).present = o :: after ∧
      ∃ p, Spells f o.tokens p ∧ shapeOfMember (bare p) = .string (some x) := by
  obtain ⟨pieces, hall, hshape⟩ := classify_union hclose h
  rw [hshape] at hclassify
  cases hpresent : (TypeExpr.union first rest).present with
  | nil =>
      rw [hpresent] at hall
      cases hall
      cases hclassify
  | cons o after =>
      rw [hpresent] at hall
      cases hall with
      | @cons _ p _ _ hp hall =>
          rw [List.map_cons, TypeShape.agree] at hclassify
          split at hclassify
          · exact ⟨o, after, rfl, p, hp, hclassify⟩
          · cases hclassify

end Shapes

/-- What is kept of the literals of a type, they being written as `f` has them. -/
structure KeepsLiterals (f : Literal → Literal) (t : TypeExpr) (text : String) : Prop where
  /-- A prop whose type is a union of string literals and absent values, in parentheses or not, has
  the first literal as its value. -/
  string : ∀ o after l, t.present = o :: after → o.peel = .literal l →
    (∀ m ∈ o :: after, (∃ l', m.peel = .literal l') ∧ m.Balanced f) →
    ∀ (framework : Framework) (p : ComponentProp), p.type = text → p.name ≠ "children" →
      Mock.value framework p = String.ofList (f l).chars
  /-- A prop whose type is a union of numbers and absent values, in parentheses or not, has the
  first number as its value. -/
  number : ∀ o after w, t.present = o :: after → o.peel = .word w →
    (∀ m ∈ o :: after, ∃ w' n, m.peel = .word w' ∧ w'.chars = Decimal.Numeral.chars n) →
    ∀ (framework : Framework) (p : ComponentProp), p.type = text → p.name ≠ "children" →
      Mock.value framework p = String.ofList w.chars
  /-- What is kept of a union is a literal when its first present operand is one, and otherwise this
  operand is a union in parentheses and what is kept is no literal. -/
  kept : ∀ first rest x, t = .union first rest → TypeShape.classify text = .string (some x) →
    ∃ o after, t.present = o :: after ∧ (o.Balanced f →
      (∃ l, o.peel = .literal l ∧ x = String.ofList (f l).chars) ∨
        (∃ u, o.peel = .paren u) ∧ ∀ l : Literal, x ≠ String.ofList l.chars)
  /-- Nothing is kept of a function. -/
  function : ∀ params result, t = .function params result →
    AllBalanced f (entryTokens .comma params) → ∀ x, TypeShape.classify text ≠ .string x

section Keeping

variable {f : Literal → Literal} {t : TypeExpr} {text : String}

theorem keepsLiterals (hclose : AllClose f t.tokens) (h : t.WrittenAs f text) :
    KeepsLiterals f t text where
  string := by
    intro o after l hpresent hpeel hall framework p hp hname
    have hshape {m : Operand} (hm : m ∈ o :: after) {l : Literal} (hl : m.peel = .literal l)
        {q : List Char} (hq : Spells f m.tokens q) :
        shapeOfMember (bare q) = .string (some (String.ofList (f l).chars)) := by
      have hmem : .literal l ∈ m.peel.tokens := by
        rw [hl]
        exact List.mem_singleton_self _
      rw [Operand.peel_literal hq (hall m hm).2 hl]
      exact shapeOfMember_chars (hclose l
        (t.present_tokens_subset m (hpresent ▸ hm) (m.peel_tokens_subset hmem)))
    have hclassify := classify_of_present hclose h hpresent
      (fun q hq => hshape List.mem_cons_self hpeel hq) fun m hm q hq => by
        obtain ⟨l', hl'⟩ := (hall m (List.mem_cons_of_mem o hm)).1
        rw [hshape (List.mem_cons_of_mem o hm) hl' hq]
        rfl
    rw [Mock.value, if_neg hname, hp, hclassify]
  number := by
    intro o after w hpresent hpeel hall framework p hp hname
    have hshape {m : Operand} (hm : m ∈ o :: after) {w : Word} (hw : m.peel = .word w)
        {q : List Char} (hq : Spells f m.tokens q) :
        shapeOfMember (bare q) = .number (some (String.ofList w.chars)) := by
      obtain ⟨w', n, hw', hn⟩ := hall m hm
      rw [hw, Operand.word.injEq] at hw'
      rw [Operand.peel_word hq hw]
      exact shapeOfMember_numeral (hw' ▸ hn)
    have hclassify := classify_of_present hclose h hpresent
      (fun q hq => hshape List.mem_cons_self hpeel hq) fun m hm q hq => by
        obtain ⟨w', -, hw', -⟩ := hall m (List.mem_cons_of_mem o hm)
        rw [hshape (List.mem_cons_of_mem o hm) hw' hq]
        rfl
    rw [Mock.value, if_neg hname, hp, hclassify]
  kept := by
    rintro first rest x rfl hclassify
    obtain ⟨o, after, hpresent, p, hp, hshape⟩ := exists_first_present hclose h hclassify
    refine ⟨o, after, hpresent, fun hbalanced =>
      eq_chars_or_paren (fun l hl => ?_) hbalanced hp hshape⟩
    exact hclose l (TypeExpr.present_tokens_subset _ o (hpresent ▸ List.mem_cons_self) hl)
  function := by
    rintro params result rfl hbalanced x hx
    obtain ⟨-, -, -, hclassify⟩ := classify_function hclose h hbalanced
    rw [hx] at hclassify
    rcases hclassify with hcase | hcase <;> cases hcase

end Keeping

/-- The first literal of a union is kept, as it is written and, with its blanks squeezed, as the
type is kept; just a literal with regular blanks stays the same by that. -/
theorem literals_kept {t : TypeExpr} {source : String} (h : t.WrittenAs id source)
    (hclose : ∀ l, .literal l ∈ t.tokens → l.Closes) :
    KeepsLiterals id t source ∧ KeepsLiterals Literal.squeeze t (normalize source) ∧
      ∀ l : Literal, l.squeeze.chars = l.chars ↔ Regular l.content := by
  refine ⟨keepsLiterals hclose h,
    keepsLiterals (fun l hl => (hclose l hl).squeeze) (.inl (TypeExpr.spells_normalize h)),
    fun l => ?_⟩
  rw [← squeeze_eq_self_iff, Literal.chars, Literal.chars, List.cons.injEq]
  exact ⟨fun h => List.append_cancel_right h.2, fun h => ⟨rfl, congrArg (· ++ [l.quote]) h⟩⟩

/-! ### Literals that are kept right and wrong -/

namespace Sizes

/-- A literal with bars and parentheses in it. -/
def small : Literal := .single "sm ) | (" (by decide)

/-- A literal in the other quotes. -/
def large : Literal := .double "lg" (by decide)

/-- A union of them and absent values. -/
def sizes : TypeExpr := .union (.paren (.union (.word .null) []))
  [.literal small, .paren (.union (.literal large) []), .word .undefined]

/-- The union as it may stand in a source. -/
def source : String := "\n  | (null)\n  | 'sm ) | ('\n  | ( \"lg\" )\n  | undefined"

theorem sizes_writtenAs : sizes.WrittenAs id source := .inr (by decide +kernel)

theorem sizes_present :
    sizes.present = [.literal small, .paren (.union (.literal large) [])] := by
  rfl

end Sizes

open Sizes in
/-- The first literal of a union is kept as it is written. -/
theorem literals_kept_nested : sizes.WrittenAs id source ∧
    (∀ l, .literal l ∈ sizes.tokens → l.Closes) ∧
    Mock.value .vitest ⟨"size", normalize source, true, false, false⟩ = "'sm ) | ('" := by
  have hclose : ∀ l, .literal l ∈ sizes.tokens → l.Closes := by
    intro l hl
    simp only [sizes, TypeExpr.tokens, Operand.tokens, barTokens, List.mem_cons, List.mem_append,
      List.not_mem_nil, reduceCtorEq, false_or, or_false, Token.literal.injEq] at hl
    rcases hl with rfl | rfl <;> decide
  refine ⟨sizes_writtenAs, hclose, ?_⟩
  have hall : ∀ m ∈ [Operand.literal small, .paren (.union (.literal large) [])],
      (∃ l', m.peel = .literal l') ∧ m.Balanced Literal.squeeze := by
    refine List.forall_mem_cons.mpr ⟨⟨⟨small, rfl⟩, fun t ht => by cases ht⟩,
      List.forall_mem_singleton.mpr ⟨⟨large, rfl⟩, ?_⟩⟩
    rintro t ⟨⟩ l hl
    cases List.mem_singleton.mp hl
    exact Literal.squeeze_balanced.mpr (by decide)
  have hvalue := (literals_kept sizes_writtenAs hclose).2.1.string _ _ small sizes_present rfl hall
    .vitest ⟨"size", normalize source, true, false, false⟩ rfl (by decide)
  rw [hvalue]
  decide +kernel

namespace Grouped

/-- A small size. -/
def small : Literal := .single "sm" (by decide)

/-- A large size. -/
def large : Literal := .single "lg" (by decide)

end Grouped

open Grouped in
/-- A union of two literals in parentheses is kept as a whole, which is neither of them and no
literal at all. -/
theorem grouped_literals_kept : ∃ (l l' : Literal) (p : ComponentProp),
    (TypeExpr.union (.paren (.union (.literal l) [.literal l'])) []).WrittenAs id p.type ∧
    p.name ≠ "children" ∧ normalize p.type = p.type ∧
    TypeShape.classify p.type = .string (some "'sm' | 'lg'") ∧
    Mock.value .jest p = "'sm' | 'lg'" ∧ ∀ k : Literal, "'sm' | 'lg'" ≠ String.ofList k.chars := by
  refine ⟨small, large, ⟨"size", "('sm' | 'lg')", true, false, false⟩, .inl (by decide +kernel),
    by decide, by decide +kernel, by decide +kernel, by decide +kernel, fun k hk => ?_⟩
  have hsplit : "'sm' | 'lg'".toList = small.chars ++ " | 'lg'".toList := by decide +kernel
  have hchars : k.chars = small.chars ++ " | 'lg'".toList := by
    rw [← hsplit, hk, String.toList_ofList]
  exact absurd (Literal.eq_nil_of_chars hchars) (by decide +kernel)

end Trellis.TypeText
