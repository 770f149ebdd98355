import Trellis.Proofs.Decimal.Numeral
import Trellis.Proofs.TypeText.Seams

/-! # Operands with something inserted

What another text at a place in an operand of a type leaves as it is.

* `bare_insert`: it does not matter for the parentheses that are taken off around the operand.
* `hasTopArrow_insert`: nor for the arrow of a function, if it has none.
* `Decided` says that what decides on the shape of the operand is not at the place, and
  `Decided.shapeOfMember_eq` that the shape is then the same. -/

namespace Trellis.TypeText

open Text.Blank

/-! ### Parentheses around a place -/

/-- An even text in front of something does not matter for what is wrapped. -/
theorem wrapsWhole_insert {m : List Char} (hm : Even m) {b : List Char} (hb : b ≠ []) (depth : Nat)
    (a : List Char) : wrapsWhole (depth + 1) (a ++ (m ++ b)) = wrapsWhole (depth + 1) (a ++ b) := by
  induction a generalizing depth with
  | nil => exact hm depth b
  | cons c a ih =>
      have hempty : (a ++ (m ++ b)).isEmpty = (a ++ b).isEmpty := by
        rw [List.isEmpty_eq_false_iff.mpr (by simp [hb]),
          List.isEmpty_eq_false_iff.mpr (by simp [hb])]
      cases depth with
      | zero => simp only [List.cons_append, wrapsWhole, ih, hempty, if_true]
      | succ depth =>
          have hne : depth + 1 + 1 ≠ 1 := by omega
          simp only [List.cons_append, wrapsWhole, ih, if_neg hne, Nat.add_sub_cancel]

section insert
variable {a b m : List Char}

/-- Parentheses around a text are taken off, or not, whatever even text stands in it. -/
theorem unwrap?_insert (hm : Even m) (ha : a ≠ []) (hb : b ≠ []) : unwrap? (a ++ (m ++ b)) =
    if a.head? = some '(' ∧ wrapsWhole 0 (a ++ b) = true then some (a.tail ++ (m ++ b.dropLast))
    else none := by
  obtain ⟨c, a, rfl⟩ := List.exists_cons_of_ne_nil ha
  by_cases hc : c = '('
  · subst hc
    have hwraps : wrapsWhole 0 ('(' :: (a ++ (m ++ b))) = wrapsWhole 0 ('(' :: (a ++ b)) := by
      rw [wrapsWhole, if_pos rfl, wrapsWhole_insert hm hb, wrapsWhole, if_pos rfl]
    have hlast : (a ++ (m ++ b)).dropLast = a ++ (m ++ b.dropLast) := by
      rw [← List.append_assoc, List.dropLast_append_of_ne_nil hb, List.append_assoc]
    simp only [List.cons_append, unwrap?, hwraps, hlast, List.head?_cons, List.tail_cons, true_and]
  · rw [List.cons_append, unwrap?.eq_2 _ (by rintro _ ⟨⟩; exact hc rfl), if_neg]
    exact fun h => hc (Option.some.inj h.1)

end insert

theorem Encloses.count_le {x s : List Char} (h : Encloses x s) (c : Char) :
    x.count c ≤ s.count c := by
  induction h with
  | here _ _ =>
      simp only [List.count_append]
      omega
  | paren _ _ _ ih =>
      simp only [List.count_append, List.count_cons]
      omega

/-- What stands in a text before and behind what is left when parentheses are taken off. -/
structure Framed (w z : List Char) : Prop where
  /-- Before it stand blanks and opening parentheses. -/
  before : ∀ c ∈ w, Text.isBlank c = true ∨ c = '('
  /-- Behind it stand blanks and closing parentheses. -/
  behind : ∀ c ∈ z, Text.isBlank c = true ∨ c = ')'

section framed
variable {w l f z : List Char}

/-- Whether the outermost parentheses are taken off an operand that is made of these parts, with an
even text between `l` and `f`. -/
def IsWrapped (w l f z : List Char) : Prop :=
  (trimStart w ++ l).head? = some '(' ∧ wrapsWhole 0 ((trimStart w ++ l) ++ (f ++ trimEnd z)) = true

variable (hl : Tight l ∧ l ≠ []) (hf : Tight f ∧ f ≠ [])
include hl hf

theorem trim_framed (x : List Char) : trim (w ++ (l ++ (x ++ (f ++ z)))) =
    (trimStart w ++ l) ++ (x ++ (f ++ trimEnd z)) := by
  have hstarts : StartsTight (l ++ (x ++ (f ++ z))) := by
    intro c hc
    rw [List.head?_append, List.head?_eq_some_head hl.2] at hc
    exact hl.1.head c (List.head?_eq_some_head hl.2 ▸ hc)
  have hends : ∀ c ∈ (trimStart w ++ (l ++ (x ++ f))).getLast?, Text.isBlank c = false := by
    intro c hc
    simp only [List.getLast?_append, List.getLast?_eq_some_getLast hf.2, Option.some_or] at hc
    exact hf.1.last c (List.getLast?_eq_some_getLast hf.2 ▸ hc)
  have htrim := trimEnd_append_of_last (r := z) hends
  rw [trim, trimStart_append_of_startsTight hstarts]
  simpa only [List.append_assoc] using htrim

theorem unwrap?_framed {x : List Char} (hx : Even x) :
    unwrap? (trim (w ++ (l ++ (x ++ (f ++ z))))) =
      if (trimStart w ++ l).head? = some '(' ∧
        wrapsWhole 0 ((trimStart w ++ l) ++ (f ++ trimEnd z)) = true
      then some ((trimStart w ++ l).tail ++ (x ++ (f ++ trimEnd z).dropLast)) else none := by
  rw [trim_framed hl hf]
  exact unwrap?_insert hx (List.append_ne_nil_of_right_ne_nil _ hl.2)
    (List.append_ne_nil_of_left_ne_nil hf.2 _)

theorem bare_of_isWrapped (h : IsWrapped w l f z) {x : List Char} (hx : Even x) :
    bare (w ++ (l ++ (x ++ (f ++ z)))) =
      bare ((trimStart w ++ l).tail ++ (x ++ (f ++ trimEnd z).dropLast)) :=
  bare_of_unwrap? ((unwrap?_framed hl hf hx).trans (if_pos h))

theorem bare_of_not_isWrapped (h : ¬ IsWrapped w l f z) {x : List Char} (hx : Even x) :
    bare (w ++ (l ++ (x ++ (f ++ z)))) = (trimStart w ++ l) ++ (x ++ (f ++ trimEnd z)) := by
  rw [← trim_framed hl hf]
  exact bare_of_unwrap?_eq_none ((unwrap?_framed hl hf hx).trans (if_neg h))

/-- What is left of an operand has no more characters of a kind than it has without the outermost
parentheses. -/
theorem count_le_of_isWrapped (h : IsWrapped w l f z) {g : List Char} (hg : Even g)
    (hbare : bare (w ++ (l ++ (g ++ (f ++ z)))) = l ++ (g ++ f)) (c : Char) :
    (l ++ (g ++ f)).count c ≤
      ((trimStart w ++ l).tail ++ (g ++ (f ++ trimEnd z).dropLast)).count c := by
  rw [← hbare, bare_of_isWrapped hl hf h hg]
  exact (encloses_bare _).count_le c

/-- The opening parenthesis is none of what is left. -/
theorem trimStart_ne_nil_of_isWrapped (hframed : Framed w z) (h : IsWrapped w l f z) {g : List Char}
    (hg : Even g) (hbare : bare (w ++ (l ++ (g ++ (f ++ z)))) = l ++ (g ++ f)) :
    trimStart w ≠ [] := by
  intro hstart
  have hcount := count_le_of_isWrapped hl hf h hg hbare '('
  obtain ⟨l', rfl⟩ : ∃ l', l = '(' :: l' := by
    rw [IsWrapped, hstart, List.nil_append] at h
    exact List.head?_eq_some_iff.mp h.1
  have hz : (trimEnd z).count '(' = 0 := List.count_eq_zero.mpr fun hmem => by
    rcases hframed.behind _ (mem_of_mem_trimEnd hmem) with hc | hc <;> cases hc
  have hlast := ((f ++ trimEnd z).dropLast_sublist).count_le '('
  rw [hstart] at hcount
  simp only [List.nil_append, List.tail_cons, List.count_append, List.count_cons_self]
    at hcount hlast
  omega

/-- The closing parenthesis is none of what is left. -/
theorem trimEnd_ne_nil_of_isWrapped (hframed : Framed w z) (h : IsWrapped w l f z) {g : List Char}
    (hg : Even g) (hbare : bare (w ++ (l ++ (g ++ (f ++ z)))) = l ++ (g ++ f)) :
    trimEnd z ≠ [] := by
  intro hend
  have hcount := count_le_of_isWrapped hl hf h hg hbare ')'
  obtain ⟨c, w', hstart⟩ := List.exists_cons_of_ne_nil
    (trimStart_ne_nil_of_isWrapped hl hf hframed h hg hbare)
  obtain ⟨f', rfl⟩ : ∃ f', f = f' ++ [')'] := by
    have hlast := getLast?_of_wrapsWhole h.2
    rw [hend, List.append_nil, List.getLast?_append, List.getLast?_eq_some_getLast hf.2,
      Option.some_or, ← List.getLast?_eq_some_getLast hf.2] at hlast
    exact List.getLast?_eq_some_iff.mp hlast
  have hw : w'.count ')' = 0 := List.count_eq_zero.mpr fun hmem => by
    have hmem := mem_of_mem_trimStart (hstart ▸ List.mem_cons_of_mem c hmem)
    rcases hframed.before _ hmem with hc | hc <;> cases hc
  rw [hstart, hend, List.append_nil, List.dropLast_concat] at hcount
  simp only [List.cons_append, List.tail_cons, List.count_append, List.count_singleton_self]
    at hcount
  omega

/-- Of an operand that is left with one text at a place, the same is left with another there. -/
theorem bare_insert {g m : List Char} (hg : Even g) (hm : Even m) (h : Framed w z)
    (hbare : bare (w ++ (l ++ (g ++ (f ++ z)))) = l ++ (g ++ f)) :
    bare (w ++ (l ++ (m ++ (f ++ z)))) = l ++ (m ++ f) := by
  -- The induction is on what is taken off: each pair of parentheses is one of those around it.
  induction hn : w.length using Nat.strongRecOn generalizing w z with
  | ind n ih =>
  by_cases hwraps : IsWrapped w l f z
  · obtain ⟨c, w', hstart⟩ := List.exists_cons_of_ne_nil
      (trimStart_ne_nil_of_isWrapped hl hf h hwraps hg hbare)
    obtain ⟨z', c', hend⟩ := (List.eq_nil_or_concat' (trimEnd z)).resolve_left
      (trimEnd_ne_nil_of_isWrapped hl hf h hwraps hg hbare)
    have hframed : Framed w' z' := by
      refine ⟨fun x hx => h.before x (mem_of_mem_trimStart ?_),
        fun x hx => h.behind x (mem_of_mem_trimEnd ?_)⟩
      · rw [hstart]
        exact List.mem_cons_of_mem c hx
      · rw [hend]
        exact List.mem_append_left _ hx
    have hinner {x : List Char} (hx : Even x) :
        bare (w ++ (l ++ (x ++ (f ++ z)))) = bare (w' ++ (l ++ (x ++ (f ++ z')))) := by
      rw [bare_of_isWrapped hl hf hwraps hx, hstart, hend, ← List.append_assoc f,
        List.dropLast_concat, List.cons_append, List.tail_cons, List.append_assoc]
    have hlength : w'.length < n := by
      have hsuffix : (trimStart w).length ≤ w.length := (List.dropWhile_suffix _).length_le
      rw [hstart, List.length_cons] at hsuffix
      omega
    rw [hinner hm]
    exact ih _ hlength hframed (hinner hg ▸ hbare) rfl
  · have hlength := congrArg List.length
      (hbare.symm.trans (bare_of_not_isWrapped hl hf hwraps hg))
    simp only [List.length_append] at hlength
    have hw : trimStart w = [] := List.length_eq_zero_iff.mp (by omega)
    have hz : trimEnd z = [] := List.length_eq_zero_iff.mp (by omega)
    rw [bare_of_not_isWrapped hl hf hwraps hm, hw, hz, List.nil_append, List.append_nil]

end framed

/-! ### Arrows around a place -/

theorem hasTopArrow_append (s : Scan) (cs ds : List Char) :
    hasTopArrow s (cs ++ ds) = (hasTopArrow s cs || hasTopArrow (s.run cs) ds) := by
  induction cs generalizing s with
  | nil => rfl
  | cons c cs ih =>
      rw [List.cons_append, hasTopArrow, hasTopArrow, ih, Bool.or_assoc, Scan.run_cons]

theorem hasTopArrow_of_no_angle {m : List Char} (hm : '>' ∉ m) (s : Scan) :
    hasTopArrow s m = false := by
  induction m generalizing s with
  | nil => rfl
  | cons c m ih =>
      rw [List.mem_cons, not_or] at hm
      rw [hasTopArrow, ih hm.2, Bool.or_false, decide_eq_false (Ne.symm hm.1), Bool.and_false,
        Bool.false_and]

/-- A text that is passed at some depth comes back at any. -/
theorem Passes.settled {d : Int} {m : List Char} (h : Passes d m) {d' : Int} {s : Scan}
    (hs : s.Settled d') : (s.run m).Settled d' := by
  have hrun := (h _ (hs.raise d)).2.raise d'
  rwa [← Scan.run_raise, Scan.raise_back] at hrun

/-- A text without an arrow that closes what it opens does not matter for arrows. -/
theorem hasTopArrow_insert {d d' : Int} {l m : List Char} (hl : (Scan.start.run l).Settled d')
    (hm : Passes d m) (hangle : '>' ∉ m) (f : List Char) :
    hasTopArrow .start (l ++ (m ++ f)) = hasTopArrow .start (l ++ f) := by
  rw [hasTopArrow_append, hasTopArrow_append, hasTopArrow_of_no_angle hangle, Bool.false_or,
    (hm.settled hl).hasTopArrow_eq hl, hasTopArrow_append]

/-- A walk through blanks and opening parentheses. -/
theorem Framed.settled_run {w z : List Char} (h : Framed w z) {d : Int} {s : Scan}
    (hs : s.Settled d) : ∃ d', (s.run w).Settled d' := by
  have hbefore := h.before
  clear h
  induction w generalizing d s with
  | nil => exact ⟨d, hs⟩
  | cons c w ih =>
      have hrest := fun x hx => hbefore x (List.mem_cons_of_mem c hx)
      rcases hbefore c List.mem_cons_self with hc | rfl
      · have hpasses : Passes d [c] := .blanks (isGap_cons.mpr ⟨hc, .nil⟩) d
        exact ih (hpasses s hs).2 hrest
      · refine ih (d := d + 1) ?_ hrest
        rw [hs.step (by rfl)]
        exact ⟨rfl, rfl, show '(' ≠ '=' by decide⟩

/-- The beginning of what is left of the operand at an open seam ends outside of literals. -/
theorem Seam.settled_left {σ : Seam} (hσ : σ.IsOpen) {w z l : List Char} (h : Framed w z)
    (hne : l ≠ []) (hlast : lastPiece .start (keptStart σ.before) = w ++ l) :
    ∃ d, (Scan.start.run l).Settled d := by
  obtain ⟨s, hs, hrun⟩ : ∃ s : Scan, s.Settled 0 ∧ s.run (w ++ l) = σ.scan := by
    rw [← hlast]
    rcases (exists_lastPiece .start (keptStart σ.before)).2 with h | ⟨-, h⟩
    · refine ⟨.start, Scan.settled_start, ?_⟩
      rw [lastPiece, h]
      rfl
    · exact h
  obtain ⟨d, hd⟩ := h.settled_run hs
  rw [Scan.run_append, hd.run_eq (Scan.settled_start.raise d) hne, Scan.run_raise] at hrun
  exact ⟨_, (congrArg Scan.quote hrun).trans hσ.quote, rfl, fun heq =>
    hσ.previous ((congrArg Scan.previous hrun).symm.trans heq)⟩

/-! ### Names around a place -/

/-- Whether a character may stand in the name of a known type. -/
def isNameChar (c : Char) : Bool := c.isAlpha || c = '.'

/-- A text with another character is none of the known names. -/
theorem shapeOfName_of_mem {base : List Char} {c : Char} (hc : c ∈ base)
    (hname : isNameChar c = false) : shapeOfName base =
      if "Handler".toList.isSuffixOf base then .callback
      else if (base.head?.map Char.isUpper).getD false then .object else .unknown := by
  have hne {n : String} (hn : n.toList.all isNameChar = true) : String.ofList base ≠ n := by
    rintro rfl
    rw [String.toList_ofList] at hn
    rw [List.all_eq_true.mp hn c hc] at hname
    cases hname
  have hcontains (ns : List String) (hns : ns.all (·.toList.all isNameChar) = true) :
      ns.contains (String.ofList base) = false := by
    rw [← Bool.not_eq_true, List.contains_iff_mem]
    exact fun hmem => hne (List.all_eq_true.mp hns _ hmem) rfl
  simp only [shapeOfName, if_neg (hne (n := "string") (by decide)),
    if_neg (hne (n := "number") (by decide)), hne (n := "boolean") (by decide),
    hne (n := "true") (by decide), hne (n := "false") (by decide),
    hcontains nodeTypes (by decide), hcontains callbackTypes (by decide),
    hcontains arrayTypes (by decide), hcontains objectTypes (by decide),
    decide_false, Bool.or_false, Bool.false_or, Bool.false_eq_true, if_false]

/-- A text that ends in two parts ends as the second one does, or the end begins in the first. -/
theorem suffix_append_iff {α : Type} {h x t : List α} :
    h <:+ x ++ t ↔ h <:+ t ∨ ∃ p, p ≠ [] ∧ p ++ t = h ∧ p <:+ x := by
  constructor
  · rintro ⟨u, hu⟩
    rcases List.append_eq_append_iff.mp hu with ⟨a, rfl, rfl⟩ | ⟨a, rfl, rfl⟩
    · cases a with
      | nil => exact .inl (List.suffix_refl _)
      | cons c a => exact .inr ⟨c :: a, List.cons_ne_nil _ _, rfl, List.suffix_append _ _⟩
    · exact .inl (List.suffix_append _ _)
  · rintro (h | ⟨p, -, rfl, u, rfl⟩)
    · exact h.trans (List.suffix_append _ _)
    · exact ⟨u, by rw [List.append_assoc]⟩

/-- Whether a word goes on from one text to the next. -/
def JoinsWord (s t : List Char) : Prop :=
  (∃ c ∈ s.getLast?, c.isAlpha = true) ∧ ∃ c ∈ t.head?, c.isAlpha = true

/-- Whether the brackets of a list at the end go on from one text to the next. -/
def JoinsBrackets (s t : List Char) : Prop := s.getLast? = some '[' ∧ t = [']']

section joins
variable {s t : List Char}

/-- A word at the end of a text does not begin in the part before. -/
theorem word_suffix_append (h : ¬ JoinsWord s t) (ht : t ≠ []) {word : List Char}
    (hword : ∀ c ∈ word, c.isAlpha = true) : word <:+ s ++ t ↔ word <:+ t := by
  rw [suffix_append_iff, or_iff_left]
  rintro ⟨p, hp, rfl, hsuffix⟩
  refine h ⟨⟨p.getLast hp, ?_, ?_⟩, t.head ht, List.head?_eq_some_head ht, ?_⟩
  · obtain ⟨u, rfl⟩ := hsuffix
    rw [List.getLast?_append, List.getLast?_eq_some_getLast hp]
    rfl
  · exact hword _ (List.mem_append_left _ (List.getLast_mem hp))
  · exact hword _ (List.mem_append_right _ (List.head_mem ht))

/-- Brackets at the end of a text do not begin in the part before. -/
theorem brackets_suffix_append (h : ¬ JoinsBrackets s t) (ht : t ≠ []) :
    "[]".toList <:+ s ++ t ↔ "[]".toList <:+ t := by
  rw [suffix_append_iff, or_iff_left]
  rintro ⟨p, hp, heq, hsuffix⟩
  obtain ⟨c, p, rfl⟩ := List.exists_cons_of_ne_nil hp
  obtain ⟨c', t, rfl⟩ := List.exists_cons_of_ne_nil ht
  cases p with
  | nil =>
      cases heq
      obtain ⟨u, rfl⟩ := hsuffix
      exact h ⟨List.getLast?_concat, rfl⟩
  | cons x p =>
      have := congrArg List.length heq
      simp at this

end joins

/-! ### Shapes around a place -/

/-- The name of an operand. -/
def nameOf (s : List Char) : List Char := trim (s.takeWhile (· ≠ '<'))

/-- What decides on the shape of an operand, where a text stands between `l` and `f`. -/
inductive Decided (l g f : List Char) : Prop
  /-- It is a function. -/
  | callback (h : hasTopArrow .start (l ++ (g ++ f)) = true)
  /-- It ends in the brackets of a list. -/
  | list (h : "[]".toList <:+ f)
  /-- It begins with a bracket or as a template. -/
  | opened (h : l.head? = some '[' ∨ l.head? = some '\x7b' ∨ l.head? = some '\x60')
  /-- It is something with a name before. -/
  | named (hliteral : isStringLiteral (l ++ (g ++ f)) = false)
      (hnumber : (Decimal.Binary.read? (l ++ (g ++ f))).isSome = false)
      (hname : '<' ∈ l ∨ f.head? ≠ some '<' ∧ ∃ c ∈ nameOf (l ++ (g ++ f)), isNameChar c = false)

theorem isStringLiteral_insert {l f : List Char} (hl : l ≠ []) (hf : f ≠ []) (x : List Char) :
    isStringLiteral (l ++ (x ++ f)) = isStringLiteral (l ++ f) := by
  obtain ⟨c, l, rfl⟩ := List.exists_cons_of_ne_nil hl
  simp only [List.cons_append, isStringLiteral, List.getLast?_append,
    List.getLast?_eq_some_getLast hf, Option.some_or]

theorem nameOf_insert_of_mem {l : List Char} (h : '<' ∈ l) (x : List Char) :
    nameOf (l ++ x) = nameOf l := by
  have hall : l.takeWhile (· ≠ '<') ≠ l := fun heq => by
    have := List.all_takeWhile (p := (· ≠ '<')) (l := l)
    rw [heq] at this
    simpa using List.all_eq_true.mp this _ h
  rw [nameOf, List.takeWhile_append, if_neg, nameOf]
  exact fun hlen => hall ((List.takeWhile_prefix _).eq_of_length hlen)

/-- The name of an operand without a bracket before a place reaches over the place. -/
theorem nameOf_insert {l f x : List Char} (hl : Tight l ∧ l ≠ []) (hf : Tight f ∧ f ≠ [])
    (hno : '<' ∉ l) (hx : '<' ∉ x) (hhead : f.head? ≠ some '<') :
    nameOf (l ++ (x ++ f)) = (l ++ x) ++ trimEnd (f.takeWhile (· ≠ '<')) ∧
      (trimEnd (f.takeWhile (· ≠ '<'))).head? = f.head? := by
  obtain ⟨c, f, rfl⟩ := List.exists_cons_of_ne_nil hf.2
  have hc : Text.isBlank c = false := hf.1.head c rfl
  have hne : decide (c ≠ '<') = true := decide_eq_true fun heq => hhead (congrArg some heq)
  have htake : (c :: f).takeWhile (· ≠ '<') = c :: f.takeWhile (· ≠ '<') := by
    rw [List.takeWhile_cons, if_pos hne]
  have hstarts : StartsTight (l ++ (x ++ c :: f.takeWhile (· ≠ '<'))) := by
    intro y hy
    rw [List.head?_append, List.head?_eq_some_head hl.2] at hy
    exact hl.1.head y (List.head?_eq_some_head hl.2 ▸ hy)
  have hpass {s : List Char} (hs : '<' ∉ s) : ∀ y ∈ s, decide (y ≠ '<') = true :=
    fun y hy => decide_eq_true fun heq => hs (heq ▸ hy)
  rw [htake, trimEnd_cons (.inl hc)]
  refine ⟨?_, rfl⟩
  rw [nameOf, List.takeWhile_append_of_pos (hpass hno), List.takeWhile_append_of_pos (hpass hx),
    htake,
    trim, trimStart_of_startsTight hstarts]
  have hlast : ∀ y ∈ ((l ++ x) ++ [c]).getLast?, Text.isBlank y = false := by
    rw [List.getLast?_concat]
    rintro _ ⟨⟩
    exact hc
  simpa only [List.append_assoc, List.singleton_append] using
    trimEnd_append_of_last hlast (r := f.takeWhile (· ≠ '<'))

section shapes

variable {l f : List Char} (hl : Tight l ∧ l ≠ []) (hf : Tight f ∧ f ≠ [])
include hl hf

/-- The shape of an operand in which something stands at a place. -/
theorem shapeOfMember_insert {x : List Char} (hx : ¬ JoinsBrackets (l ++ x) f) :
    shapeOfMember (l ++ (x ++ f)) =
      if hasTopArrow .start (l ++ (x ++ f)) then .callback
      else if "[]".toList.isSuffixOf f || l.head? = some '[' then .array
      else if l.head? = some '\x7b' then .object
      else if isStringLiteral (l ++ f) then .string (some (String.ofList (l ++ (x ++ f))))
      else if l.head? = some '\x60' then .string none
      else if (Decimal.Binary.read? (l ++ (x ++ f))).isSome then
        .number (some (String.ofList (l ++ (x ++ f))))
      else shapeOfName (nameOf (l ++ (x ++ f))) := by
  have hsuffix : "[]".toList.isSuffixOf (l ++ (x ++ f)) = "[]".toList.isSuffixOf f := by
    rw [Bool.eq_iff_iff, List.isSuffixOf_iff_suffix, List.isSuffixOf_iff_suffix,
      ← List.append_assoc,
      brackets_suffix_append hx hf.2]
  have hhead : (l ++ (x ++ f)).head? = l.head? := by
    rw [List.head?_append, List.head?_eq_some_head hl.2]
    rfl
  rw [shapeOfMember, hsuffix, hhead, isStringLiteral_insert hl.2 hf.2, nameOf]

/-- The name of an operand says the same with something else at a place, unless it ends there. -/
theorem shapeOfName_insert {g m : List Char} (hg : '<' ∉ g) (hm : '<' ∉ m ∧ '/' ∈ m)
    (hword : ¬ JoinsWord (l ++ g) f) (hword' : ¬ JoinsWord (l ++ m) f)
    (hname : '<' ∈ l ∨ f.head? ≠ some '<' ∧ ∃ c ∈ nameOf (l ++ (g ++ f)), isNameChar c = false) :
    shapeOfName (nameOf (l ++ (m ++ f))) = shapeOfName (nameOf (l ++ (g ++ f))) := by
  by_cases hangle : '<' ∈ l
  · rw [nameOf_insert_of_mem hangle, nameOf_insert_of_mem hangle]
  · obtain ⟨hhead, c, hc, hchar⟩ := hname.resolve_left hangle
    obtain ⟨hnameg, htail⟩ := nameOf_insert hl hf hangle hg hhead
    obtain ⟨hnamem, -⟩ := nameOf_insert hl hf hangle hm.1 hhead
    generalize trimEnd (f.takeWhile (· ≠ '<')) = t at hnameg hnamem htail
    have ht : t ≠ [] := by
      rintro rfl
      exact hf.2 (List.head?_eq_none_iff.mp htail.symm)
    have hslash : '/' ∈ (l ++ m) ++ t := List.mem_append_left _ (List.mem_append_right _ hm.2)
    have hsuffix {x : List Char} (hx : ¬ JoinsWord (l ++ x) f) :
        "Handler".toList.isSuffixOf ((l ++ x) ++ t) = "Handler".toList.isSuffixOf t := by
      have hword : "Handler".toList.all Char.isAlpha = true := by decide
      rw [Bool.eq_iff_iff, List.isSuffixOf_iff_suffix, List.isSuffixOf_iff_suffix,
        word_suffix_append (by rwa [JoinsWord, htail]) ht (List.all_eq_true.mp hword)]
    have hfirst (x : List Char) : ((l ++ x) ++ t).head? = l.head? := by
      rw [List.append_assoc, List.head?_append, List.head?_eq_some_head hl.2]
      rfl
    rw [hnameg] at hc ⊢
    rw [hnamem, shapeOfName_of_mem hslash (by decide), shapeOfName_of_mem hc hchar,
      hsuffix hword, hsuffix hword', hfirst, hfirst]

/-- The shape of an operand is the same with another text at a place that does not decide on it. -/
theorem Decided.shapeOfMember_eq {g m : List Char} (h : Decided l g f)
    (harrow : hasTopArrow .start (l ++ (m ++ f)) = hasTopArrow .start (l ++ (g ++ f)))
    (hg : '<' ∉ g) (hm : '<' ∉ m ∧ '/' ∈ m) (hword : ¬ JoinsWord (l ++ g) f)
    (hword' : ¬ JoinsWord (l ++ m) f) (hlist : ¬ JoinsBrackets (l ++ g) f)
    (hlist' : ¬ JoinsBrackets (l ++ m) f) :
    shapeOfMember (l ++ (m ++ f)) = shapeOfMember (l ++ (g ++ f)) := by
  rw [shapeOfMember_insert hl hf hlist, shapeOfMember_insert hl hf hlist', harrow]
  cases h with
  | callback h => rw [h, if_pos rfl, if_pos rfl]
  | list h => rw [List.isSuffixOf_iff_suffix.mpr h, Bool.true_or, if_pos rfl, if_pos rfl]
  | opened h =>
      rcases h with h | h | h
      · simp only [h, decide_true, Bool.or_true, if_true]
      · simp only [h, if_true]
      · have hliteral : isStringLiteral (l ++ f) = false := by
          obtain ⟨l, rfl⟩ := List.head?_eq_some_iff.mp h
          rfl
        simp only [h, hliteral, Bool.false_eq_true, if_false, if_true]
  | named hliteral hnumber hname =>
      have hnumber' : (Decimal.Binary.read? (l ++ (m ++ f))).isSome = false := by
        rw [← Bool.not_eq_true]
        exact fun hread => Decimal.Binary.notMem_of_read? (c := '/')
          ⟨by decide, by decide, by decide, by decide⟩ hread
          (List.mem_append_right _ (List.mem_append_left _ hm.2))
      rw [isStringLiteral_insert hl.2 hf.2] at hliteral
      rw [hliteral, hnumber, hnumber', shapeOfName_insert hl hf hg hm hword hword' hname]
      simp only [Bool.false_eq_true, if_false]

end shapes

end Trellis.TypeText
