import Trellis.Proofs.TypeText.Scanning

/-! # Enclosing parentheses

What is left of a text when the parentheses around it are taken off.

* `encloses_bare`: only blanks and enclosing parentheses are taken away. So an operand of which a
  word is left is this word in parentheses (`Operand.peel_of_encloses`), whatever its literals are.
* `Woven.even`: the parentheses of a text close each other when those in its literals do.
  `bare_enclosed` and `bare_of_group` tell from this when parentheses are taken off. -/

namespace Trellis.TypeText

open Text.Blank

/-! ### Enclosing parentheses -/

/-- A text around `x` of nothing but blanks and enclosing parentheses. -/
inductive Encloses (x : List Char) : List Char → Prop
  | here {gap gap' : List Char} (hgap : IsGap gap) (hgap' : IsGap gap') :
      Encloses x (gap ++ (x ++ gap'))
  | paren {gap s gap' : List Char} (hgap : IsGap gap) (hgap' : IsGap gap') (h : Encloses x s) :
      Encloses x (gap ++ (('(' :: (s ++ [')'])) ++ gap'))

theorem Encloses.mem {x s : List Char} (h : Encloses x s) {c : Char} (hc : c ∈ s) :
    c ∈ x ∨ Text.isBlank c = true ∨ c = '(' ∨ c = ')' := by
  induction h with
  | here hgap hgap' =>
      simp only [List.mem_append] at hc
      rcases hc with hc | hc | hc
      · exact .inr (.inl (hgap c hc))
      · exact .inl hc
      · exact .inr (.inl (hgap' c hc))
  | paren hgap hgap' _ ih =>
      simp only [List.mem_append, List.mem_cons, List.not_mem_nil, or_false] at hc
      rcases hc with hc | (hc | hc | hc) | hc
      · exact .inr (.inl (hgap c hc))
      · exact .inr (.inr (.inl hc))
      · exact ih hc
      · exact .inr (.inr (.inr hc))
      · exact .inr (.inl (hgap' c hc))

/-- A closing parenthesis is the last character where all is wrapped. -/
theorem getLast?_of_wrapsWhole {depth : Nat} {s : List Char} (h : wrapsWhole depth s = true) :
    s.getLast? = some ')' := by
  induction s generalizing depth with
  | nil => cases h
  | cons c s ih =>
      have htail {d : Nat} (hd : wrapsWhole d s = true) : (c :: s).getLast? = some ')' := by
        rw [List.getLast?_cons, ih hd]
        rfl
      rw [wrapsWhole] at h
      split at h
      · exact htail h
      · split at h
        · next hc =>
          split at h
          · rw [List.isEmpty_iff] at h
            rw [h, hc]
            rfl
          · exact htail h
        · exact htail h

theorem eq_of_unwrap? {s inner : List Char} (h : unwrap? s = some inner) :
    s = '(' :: (inner ++ [')']) := by
  cases s with
  | nil => cases h
  | cons c rest =>
      by_cases hc : c = '('
      · subst hc
        rw [unwrap?] at h
        split at h
        · next hwhole =>
          cases h
          have hlast := getLast?_of_wrapsWhole hwhole
          cases rest with
          | nil => cases hwhole
          | cons c rest =>
              rw [List.getLast?_cons_cons] at hlast
              obtain ⟨ys, hys⟩ := List.getLast?_eq_some_iff.mp hlast
              rw [hys, List.dropLast_concat]
        · cases h
      · rw [unwrap?.eq_2 _ (by rintro _ ⟨⟩; exact hc rfl)] at h
        cases h

theorem length_trim_le (s : List Char) : (trim s).length ≤ s.length := by
  obtain ⟨gap, gap', -, -, heq⟩ := exists_between s
  have := congrArg List.length heq
  simp only [List.length_append] at this
  omega

theorem length_of_unwrap? {s inner : List Char} (h : unwrap? s = some inner) :
    s.length = inner.length + 2 := by
  rw [eq_of_unwrap? h, List.length_cons, List.length_append, List.length_singleton]

theorem stripParens_nil (n : Nat) : stripParens n [] = [] := by cases n <;> rfl

/-- More turns than characters change nothing. -/
theorem stripParens_of_le {n m : Nat} {s : List Char} (hn : s.length ≤ n) (hm : s.length ≤ m) :
    stripParens n s = stripParens m s := by
  induction n generalizing m s with
  | zero =>
      rw [List.length_eq_zero_iff.mp (Nat.le_zero.mp hn), stripParens_nil, stripParens_nil]
  | succ n ih =>
      cases m with
      | zero =>
          rw [List.length_eq_zero_iff.mp (Nat.le_zero.mp hm), stripParens_nil, stripParens_nil]
      | succ m =>
          rw [stripParens, stripParens]
          cases hs : unwrap? s with
          | none => rfl
          | some inner =>
              have hlen := length_of_unwrap? hs
              have htrim := length_trim_le inner
              exact ih (by omega) (by omega)

theorem bare_of_unwrap?_eq_none {s : List Char} (h : unwrap? (trim s) = none) :
    bare s = trim s := by
  rw [bare]
  cases (trim s).length with
  | zero => rfl
  | succ n => rw [stripParens, h]

theorem bare_of_unwrap? {s inner : List Char} (h : unwrap? (trim s) = some inner) :
    bare s = bare inner := by
  have hlen := length_of_unwrap? h
  have htrim := length_trim_le inner
  rw [bare, bare]
  cases hn : (trim s).length with
  | zero => omega
  | succ n =>
      rw [stripParens, h]
      exact stripParens_of_le (by omega) (Nat.le_refl _)

/-- What is left of a text stands in it between enclosing parentheses. -/
theorem encloses_bare (s : List Char) : Encloses (bare s) s := by
  obtain ⟨gap, gap', hgap, hgap', heq⟩ := exists_between s
  cases h : unwrap? (trim s) with
  | none =>
      have := Encloses.here (x := trim s) hgap hgap'
      rwa [← heq, ← bare_of_unwrap?_eq_none h] at this
  | some inner =>
      have hlt : inner.length < s.length := by
        have hlen := length_of_unwrap? h
        have htrim := length_trim_le s
        omega
      have := Encloses.paren hgap hgap' (encloses_bare inner)
      rwa [← eq_of_unwrap? h, ← heq, ← bare_of_unwrap? h] at this
termination_by s.length

/-! ### Words in parentheses -/

/-- Whether a character is neither a blank nor a parenthesis. -/
def isSolid (c : Char) : Bool := !Text.isBlank c && c ≠ '(' && c ≠ ')'

theorem isSolid_iff {c : Char} :
    isSolid c = true ↔ Text.isBlank c = false ∧ c ≠ '(' ∧ c ≠ ')' := by
  simp only [isSolid, Bool.and_eq_true, Bool.not_eq_true', decide_eq_true_eq, and_assoc]

theorem Word.isSolid (w : Word) {c : Char} (hc : c ∈ w.chars) : isSolid c = true := by
  have hmarks := notMem_marks_of_isWordChar (w.plain c hc)
  simp only [marks, List.mem_cons, not_or] at hmarks
  exact isSolid_iff.mpr ⟨w.tight c hc, hmarks.1, hmarks.2.1⟩

theorem Literal.isSolid_quote (l : Literal) : isSolid l.quote = true := by
  rcases l.isQuote with h | h <;> rw [h] <;> rfl

theorem TypeExpr.headTokens_subset : (t : TypeExpr) → t.headTokens ⊆ t.tokens
  | .union _ _ => List.subset_append_left _ _
  | .function _ result =>
    List.cons_subset_cons _ (List.append_subset.mpr ⟨List.subset_append_left _ _,
      List.subset_append_of_subset_right _ (List.cons_subset_cons _ (List.cons_subset_cons _
        result.headTokens_subset))⟩)

section Solid

variable (f : Literal → Literal)

theorem Word.exists_solid (w : Word) : ∃ c ∈ w.chars, TypeText.isSolid c = true :=
  ⟨_, List.head_mem w.nonempty, w.isSolid (List.head_mem w.nonempty)⟩

mutual

/-- What comes before the first bar is not written with blanks and parentheses only. -/
theorem TypeExpr.exists_solid :
    (t : TypeExpr) → ∃ u ∈ t.headTokens, ∃ c ∈ u.chars f, isSolid c = true
  | .function _ _ =>
    ⟨.arrow, List.mem_cons_of_mem _ (List.mem_append_right _ (List.mem_cons_of_mem _
      List.mem_cons_self)), '=', List.mem_cons_self, rfl⟩
  | .union first _ => first.exists_solid

/-- An operand is not written with blanks and parentheses only. -/
theorem Operand.exists_solid : (o : Operand) → ∃ u ∈ o.tokens, ∃ c ∈ u.chars f, isSolid c = true
  | .word w => ⟨.word w, List.mem_singleton_self _, w.exists_solid⟩
  | .literal l =>
    ⟨.literal l, List.mem_singleton_self _, _, List.mem_cons_self, (f l).isSolid_quote⟩
  | .array element =>
    have ⟨u, hu, h⟩ := element.exists_solid
    ⟨u, List.mem_append_left _ hu, h⟩
  | .generic name _ _ => ⟨.word name, List.mem_cons_self, name.exists_solid⟩
  | .object _ _ _ =>
    ⟨.opening .curly, List.mem_cons_self, _, List.mem_singleton_self _, rfl⟩
  | .paren type =>
    have ⟨u, hu, h⟩ := type.exists_solid
    ⟨u, List.mem_cons_of_mem _ (List.mem_append_left _ (type.headTokens_subset hu)), h⟩

end

variable {f} {ts : List Token} {s : List Char}

/-- Something is left of a text with a solid character. -/
theorem bare_ne_nil (h : Spells f ts s) (hsolid : ∃ u ∈ ts, ∃ c ∈ u.chars f, isSolid c = true) :
    bare s ≠ [] := by
  intro hnil
  obtain ⟨u, hu, c, hc, hsolid⟩ := hsolid
  obtain ⟨hblank, hopen, hclose⟩ := isSolid_iff.mp hsolid
  rcases (encloses_bare s).mem (h.mem hu hc) with hmem | hmem | hmem | hmem
  · rw [hnil] at hmem
    exact List.not_mem_nil hmem
  · rw [hblank] at hmem
    cases hmem
  · exact hopen hmem
  · exact hclose hmem

/-- Around a word between parentheses stands no mark but these parentheses. -/
theorem Encloses.notMem_marks {w : Word} (h : Encloses w.chars s) (hs : Spells f ts s) {u : Token}
    (hu : u ∈ ts) {c : Char} (hc : c ∈ u.chars f) (hsolid : isSolid c = true) : c ∉ marks := by
  obtain ⟨hblank, hopen, hclose⟩ := isSolid_iff.mp hsolid
  rcases h.mem (hs.mem hu hc) with hmem | hmem | hmem | hmem
  · exact notMem_marks_of_isWordChar (w.plain c hmem)
  · rw [hblank] at hmem
    cases hmem
  · exact absurd hmem hopen
  · exact absurd hmem hclose

/-- An operand that is neither a word nor in parentheses has a mark that is no parenthesis. -/
theorem Operand.word_or_paren_or_marked (f : Literal → Literal) (o : Operand) :
    (∃ w, o = .word w) ∨ (∃ t, o = .paren t) ∨
    ∃ u ∈ o.tokens, ∃ c ∈ u.chars f, isSolid c = true ∧ c ∈ marks := by
  cases o with
  | word w => exact .inl ⟨w, rfl⟩
  | paren t => exact .inr (.inl ⟨t, rfl⟩)
  | literal l =>
      refine .inr (.inr ⟨.literal l, List.mem_singleton_self _, _, List.mem_cons_self,
        (f l).isSolid_quote, ?_⟩)
      rcases (f l).isQuote with h | h <;> rw [h] <;> decide
  | array element =>
      exact .inr (.inr ⟨.opening .square, List.mem_append_right _ List.mem_cons_self, '[',
        List.mem_singleton_self _, rfl, by decide⟩)
  | generic name first rest =>
      exact .inr (.inr ⟨.opening .angle, List.mem_cons_of_mem _ List.mem_cons_self, '<',
        List.mem_singleton_self _, rfl, by decide⟩)
  | object separator trailing entries =>
      exact .inr (.inr ⟨.opening .curly, List.mem_cons_self, '\x7b',
        List.mem_singleton_self _, rfl, by decide⟩)

/-- An operand that is written as a word in parentheses is this word in parentheses. -/
theorem Operand.peel_of_encloses {w : Word} {p : List Char} (h : Encloses w.chars p)
    {o : Operand} (hp : Spells f o.tokens p) : ∃ w', o.peel = .word w' ∧ w'.chars = w.chars := by
  have hmarked (s : List Char) (h : Encloses w.chars s) (o : Operand) (hs : Spells f o.tokens s)
      (hm : ∃ u ∈ o.tokens, ∃ c ∈ u.chars f, isSolid c = true ∧ c ∈ marks) : False := by
    obtain ⟨u, hu, c, hc, hsolid, hmem⟩ := hm
    exact h.notMem_marks hs hu hc hsolid hmem
  -- Each pair of parentheses is one of the operand, as nothing else is written like them.
  induction h generalizing o with
  | @here gap gap' hgap hgap' =>
      have htrim : trim (gap ++ (w.chars ++ gap')) = w.chars :=
        trim_between hgap (Token.tight_chars id (.word w)) hgap'
      rcases o.word_or_paren_or_marked f with ⟨w', rfl⟩ | ⟨t, rfl⟩ | hm
      · exact ⟨w', rfl, by rw [← hp.trim_word, htrim]⟩
      · obtain ⟨inner, hinner, -⟩ := hp.enclosed
        have hopen := w.plain '(' (by rw [← htrim, hinner]; exact List.mem_cons_self)
        exact absurd hopen (by decide)
      · exact (hmarked _ (.here hgap hgap') o hp hm).elim
  | @paren gap s gap' hgap hgap' h ih =>
      have hall := Encloses.paren hgap hgap' h
      have htrim : trim (gap ++ (('(' :: (s ++ [')'])) ++ gap')) = '(' :: (s ++ [')']) :=
        trim_between hgap ((Token.tight_chars id (.opening .round)).between
          (List.cons_ne_nil _ _) (Token.tight_chars id (.closing .round)) (List.cons_ne_nil _ _) s)
          hgap'
      rcases o.word_or_paren_or_marked f with ⟨w', rfl⟩ | ⟨t, rfl⟩ | hm
      · have hopen := w'.plain '(' (by rw [← hp.trim_word, htrim]; exact List.mem_cons_self)
        exact absurd hopen (by decide)
      · obtain ⟨inner, hinner, hspells⟩ := hp.enclosed
        have hs : s = inner := by
          rw [htrim] at hinner
          exact List.append_cancel_right (List.cons.inj hinner).2
        subst hs
        match t with
        | .union o [] =>
            rw [TypeExpr.tokens, barTokens, List.append_nil] at hspells
            obtain ⟨w', hpeel, hw⟩ := ih hspells
            exact ⟨w', hpeel, hw⟩
        | .union o (m :: ms) =>
            refine (h.notMem_marks hspells (u := .bar) ?_ (List.mem_singleton_self _) rfl
              (by decide)).elim
            exact List.mem_append_right _ List.mem_cons_self
        | .function params result =>
            refine (h.notMem_marks hspells (u := .arrow) ?_ List.mem_cons_self rfl
              (by decide)).elim
            exact List.mem_cons_of_mem _ (List.mem_append_right _ (List.mem_cons_of_mem _
              List.mem_cons_self))
      · exact (hmarked _ hall o hp hm).elim

end Solid

/-! ### Even texts -/

/-- Whether all parentheses that a text opens are closed in it, and no others. -/
def Even (s : List Char) : Prop :=
  ∀ (depth : Nat) (rest : List Char),
    wrapsWhole (depth + 1) (s ++ rest) = wrapsWhole (depth + 1) rest

theorem Even.append {s s' : List Char} (h : Even s) (h' : Even s') : Even (s ++ s') := by
  intro depth rest
  rw [List.append_assoc, h, h']

theorem Even.paren {s : List Char} (h : Even s) : Even ('(' :: (s ++ [')'])) := by
  intro depth rest
  rw [List.cons_append, List.append_assoc, wrapsWhole, if_pos rfl, h, List.singleton_append,
    wrapsWhole, if_neg (by decide), if_pos rfl, if_neg (by omega)]
  rfl

theorem Even.of_forall {s : List Char} (h : ∀ c ∈ s, c ≠ '(' ∧ c ≠ ')') : Even s := by
  intro depth rest
  induction s with
  | nil => rfl
  | cons c s ih =>
      obtain ⟨hopen, hclose⟩ := h c List.mem_cons_self
      rw [List.cons_append, wrapsWhole, if_neg hopen, if_neg hclose,
        ih fun x hx => h x (List.mem_cons_of_mem c hx)]

theorem Even.of_all {s : List Char} (h : s.all (fun c => c ≠ '(' && c ≠ ')') = true) : Even s :=
  .of_forall fun c hc => by
    have := List.all_eq_true.mp h c hc
    rwa [Bool.and_eq_true, decide_eq_true_eq, decide_eq_true_eq] at this

theorem wrapsWhole_of_closesParens {s : List Char} {opened : Nat} (h : closesParens opened s = true)
    (depth : Nat) (rest : List Char) :
    wrapsWhole (depth + 1 + opened) (s ++ rest) = wrapsWhole (depth + 1) rest := by
  induction s generalizing opened with
  | nil =>
      rw [closesParens, decide_eq_true_eq] at h
      rw [h]
      rfl
  | cons c s ih =>
      rw [closesParens] at h
      rw [List.cons_append, wrapsWhole]
      split at h
      · rw [if_pos ‹_›]
        exact ih h
      · rw [if_neg ‹_›]
        split at h
        · rw [Bool.and_eq_true, decide_eq_true_eq] at h
          rw [if_pos ‹_›, if_neg (by omega), ← ih h.2]
          congr 1
          omega
        · rw [if_neg ‹_›]
          exact ih h

/-- Whether the parentheses of all literals among tokens close each other. -/
def AllBalanced (f : Literal → Literal) (ts : List Token) : Prop :=
  ∀ l, .literal l ∈ ts → (f l).Balanced

theorem Literal.even {l : Literal} (h : l.Balanced) : Even l.chars := by
  have hquote : Even [l.quote] := .of_forall fun c hc => by
    cases List.mem_singleton.mp hc
    exact (isSolid_iff.mp l.isSolid_quote).2
  have hcontent : Even l.content := fun depth rest => wrapsWhole_of_closesParens h depth rest
  exact hquote.append (hcontent.append hquote)

theorem Even.blanks {gap : List Char} (h : IsGap gap) : Even gap := .of_forall fun c hc => by
  have hmarks := notMem_marks_of_isBlank (h c hc)
  simp only [marks, List.mem_cons, not_or] at hmarks
  exact ⟨hmarks.1, hmarks.2.1⟩

theorem Even.word (w : Word) : Even w.chars :=
  .of_forall fun _ hc => (isSolid_iff.mp (w.isSolid hc)).2

theorem Even.bracket (k : Bracket) {s : List Char} (h : Even s) :
    Even (k.opening :: (s ++ [k.closing])) := by
  cases k with
  | round => exact h.paren
  | _ => exact Even.append (s := [_]) (.of_all (by rfl)) (h.append (.of_all (by rfl)))

/-- The text of tokens is even when the first token and the text of the others are. -/
theorem Even.tokens {f : Literal → Literal} {t : Token} {ts : List Token} {s : List Char}
    (hs : Spells f (t :: ts) s) (ht : Even (t.chars f))
    (hrest : ∀ cs, Spells f ts cs → Even cs) : Even s := by
  obtain ⟨gap, cs, rfl, hgap, hcs⟩ := Spells.cons_iff.mp hs
  exact (Even.blanks hgap).append (ht.append (hrest cs hcs))

/-- The parentheses of a text close each other. -/
theorem Woven.even {loose : Bool} {ts : List Token} (h : Woven loose ts) {f : Literal → Literal}
    (hbalanced : AllBalanced f ts) {s : List Char} (hs : Spells f ts s) : Even s := by
  have htail {t : Token} {ts : List Token} (h : AllBalanced f (t :: ts)) : AllBalanced f ts :=
    fun l hl => h l (List.mem_cons_of_mem t hl)
  induction h generalizing s with
  | nil => exact .blanks (Spells.nil_iff.mp hs)
  | word _ ih => exact .tokens hs (.word _) fun cs hcs => ih (htail hbalanced) hcs
  | literal _ ih =>
      have hliteral := hbalanced _ List.mem_cons_self
      exact .tokens hs (Literal.even hliteral) fun cs hcs => ih (htail hbalanced) hcs
  | @mark _ m _ _ ih =>
      have hmark : Even [m.char] := .of_all (by cases m <;> rfl)
      exact .tokens hs hmark fun cs hcs => ih (htail hbalanced) hcs
  | bracket _ _ ihInner ih =>
      obtain ⟨gap, a, b, rfl, hgap, ha, hb⟩ := hs.exists_bracket
      have hinner : Even a := by
        refine ihInner (fun l hl => hbalanced l ?_) ha
        exact List.mem_cons_of_mem _ (List.mem_append_left _ hl)
      have hrest : Even b := by
        refine ih (fun l hl => hbalanced l ?_) hb
        exact List.mem_cons_of_mem _ (List.mem_append_right _ (List.mem_cons_of_mem _ hl))
      exact (Even.blanks hgap).append ((hinner.bracket _).append hrest)
  | bar _ ih =>
      exact .tokens hs (.of_all (by rfl)) fun cs hcs => ih (htail hbalanced) hcs
  | arrow _ ih =>
      exact .tokens hs (.of_all (by rfl)) fun cs hcs => ih (htail hbalanced) hcs

/-- Parentheses around everything are taken off. -/
theorem unwrap?_of_even {inner : List Char} (h : Even inner) :
    unwrap? ('(' :: (inner ++ [')'])) = some inner := by
  have hwhole : wrapsWhole 0 ('(' :: (inner ++ [')'])) = true := by
    rw [wrapsWhole, if_pos rfl, h]
    rfl
  rw [unwrap?, if_pos hwhole, List.dropLast_concat]

/-- Parentheses are not taken off when something comes behind them. -/
theorem unwrap?_of_rest {inner rest : List Char} (h : Even inner) (hrest : rest ≠ []) :
    unwrap? ('(' :: (inner ++ ')' :: rest)) = none := by
  have hwhole : ¬ wrapsWhole 0 ('(' :: (inner ++ ')' :: rest)) = true := by
    rw [wrapsWhole, if_pos rfl, h, wrapsWhole, if_neg (by decide), if_pos rfl, if_pos rfl,
      List.isEmpty_iff]
    exact hrest
  rw [unwrap?, if_neg hwhole]

/-- Parentheses around all tokens are taken off. -/
theorem bare_enclosed {f : Literal → Literal} {ts : List Token} {s : List Char}
    (hs : Spells f (.opening .round :: (ts ++ [.closing .round])) s) (h : Woven true ts)
    (hbalanced : AllBalanced f ts) : ∃ inner, Spells f ts inner ∧ bare s = bare inner := by
  obtain ⟨inner, htrim, hinner⟩ := hs.enclosed
  refine ⟨inner, hinner, bare_of_unwrap? ?_⟩
  rw [htrim]
  exact unwrap?_of_even (h.even hbalanced hinner)

/-- Parentheses around the first tokens only are not taken off. -/
theorem bare_of_group {f : Literal → Literal} {inner ts : List Token} {s : List Char}
    (hs : Spells f (.opening .round :: (inner ++ .closing .round :: ts)) s)
    (h : Woven true inner) (hbalanced : AllBalanced f inner) (hne : ts ≠ []) : bare s = trim s := by
  obtain ⟨a, b, htrim, ha, hb⟩ := hs.bracket
  refine bare_of_unwrap?_eq_none ?_
  rw [htrim]
  refine unwrap?_of_rest (h.even hbalanced ha) ?_
  obtain ⟨t, ts, rfl⟩ := List.exists_cons_of_ne_nil hne
  exact hb.nonempty

/-- A text that begins with no parenthesis stays as it is. -/
theorem bare_of_head {f : Literal → Literal} {t : Token} {ts : List Token} {s : List Char}
    (hs : Spells f (t :: ts) s) (ht : (t.chars f).head? ≠ some '(') : bare s = trim s := by
  obtain ⟨rest, htrim, -, -⟩ := hs.trim
  refine bare_of_unwrap?_eq_none ?_
  rw [htrim]
  obtain ⟨c, cs, hc⟩ := List.exists_cons_of_ne_nil (t.chars_ne_nil f)
  rw [hc] at ht ⊢
  rw [List.cons_append, unwrap?.eq_2 _ (by rintro _ ⟨⟩; exact ht rfl)]

/-! ### Operands in parentheses -/

theorem TypeExpr.tokens_subset_paren (t : TypeExpr) : t.tokens ⊆ (Operand.paren t).tokens :=
  fun _ hu => List.mem_cons_of_mem _ (List.mem_append_left _ hu)

theorem TypeExpr.entryTokens_subset (params : List Entry) (result : TypeExpr) :
    entryTokens .comma params ⊆ (TypeExpr.function params result).tokens :=
  fun _ hu => List.mem_cons_of_mem _ (List.mem_append_left _ hu)

/-- Whether the parentheses of the literals in an operand close each other, if it stands in
parentheses. -/
def Operand.Balanced (f : Literal → Literal) (o : Operand) : Prop :=
  ∀ t, o = .paren t → AllBalanced f t.tokens

section Operand

variable {f : Literal → Literal} {o : Operand} {p : List Char}

/-- What is left of an operand in parentheses is left of the operand alone, too. -/
theorem Operand.bare_peel (hp : Spells f o.tokens p) (hbalanced : o.Balanced f) :
    ∃ p', Spells f o.peel.tokens p' ∧ bare p = bare p' := by
  fun_induction Operand.peel o generalizing p with
  | case1 o ih =>
      have hall : AllBalanced f o.tokens :=
        fun l hl => hbalanced _ rfl l (List.mem_append_left _ hl)
      have htokens : (Operand.paren (.union o [])).tokens =
          .opening .round :: (o.tokens ++ [.closing .round]) := by
        rw [Operand.tokens, TypeExpr.tokens, barTokens, List.append_nil]
      rw [htokens] at hp
      obtain ⟨inner, hinner, hbare⟩ := bare_enclosed hp o.woven.loosen hall
      obtain ⟨p', hp', hbare'⟩ := ih hinner fun t ht l hl =>
        hall l (ht ▸ t.tokens_subset_paren hl)
      exact ⟨p', hp', hbare.trans hbare'⟩
  | case2 o _ => exact ⟨p, hp, rfl⟩

theorem Operand.peel_tokens_subset (o : Operand) : o.peel.tokens ⊆ o.tokens := by
  fun_induction Operand.peel o with
  | case1 o ih =>
      rw [Operand.tokens, TypeExpr.tokens, barTokens, List.append_nil]
      exact List.subset_cons_of_subset _ (List.subset_append_of_subset_left _ ih)
  | case2 o _ => exact List.Subset.refl _

theorem Operand.Balanced.of_all (h : AllBalanced f o.tokens) : o.Balanced f := by
  rintro t rfl l hl
  exact h l (t.tokens_subset_paren hl)

theorem Operand.peel_literal (hp : Spells f o.tokens p) (hbalanced : o.Balanced f) {l : Literal}
    (hpeel : o.peel = .literal l) : bare p = (f l).chars := by
  obtain ⟨p', hp', hbare⟩ := o.bare_peel hp hbalanced
  rw [hpeel, Operand.tokens] at hp'
  obtain ⟨rest, htrim, hrest, htight⟩ := hp'.trim
  have hhead : (Token.chars f (.literal l)).head? ≠ some '(' := fun h =>
    (f l).quote_ne (by decide) (by decide) (Option.some.inj h)
  rw [hbare, bare_of_head hp' hhead, htrim, htight.eq_nil (Spells.nil_iff.mp hrest),
    List.append_nil]
  rfl

theorem Operand.literal_notMem_of_peel {w : Word} (hpeel : o.peel = .word w) (l : Literal) :
    .literal l ∉ o.tokens := by
  fun_induction Operand.peel o with
  | case1 o ih =>
      rw [Operand.tokens, TypeExpr.tokens, barTokens]
      simpa using ih hpeel
  | case2 o _ =>
      subst hpeel
      rw [Operand.tokens, List.mem_singleton]
      exact Token.noConfusion

theorem Operand.peel_word {w : Word} (hp : Spells f o.tokens p) (hpeel : o.peel = .word w) :
    bare p = w.chars := by
  have hbalanced : o.Balanced f := fun t ht l hl =>
    absurd (ht ▸ t.tokens_subset_paren hl) (Operand.literal_notMem_of_peel hpeel l)
  obtain ⟨p', hp', hbare⟩ := o.bare_peel hp hbalanced
  rw [hpeel, Operand.tokens] at hp'
  have hhead : (Token.chars f (.word w)).head? ≠ some '(' := fun h =>
    absurd (w.plain '(' (List.mem_of_mem_head? h)) (by decide)
  rw [hbare, bare_of_head hp' hhead, hp'.trim_word]

/-- Of a piece a word is left just when its operand is this word, perhaps in parentheses. -/
theorem Operand.bare_eq_word_iff {w : Word} (hp : Spells f o.tokens p) :
    bare p = w.chars ↔ ∃ w', o.peel = .word w' ∧ w'.chars = w.chars := by
  constructor
  · intro h
    exact Operand.peel_of_encloses (h ▸ encloses_bare p) hp
  · rintro ⟨w', hpeel, hw⟩
    rw [Operand.peel_word hp hpeel, hw]

end Operand

end Trellis.TypeText
