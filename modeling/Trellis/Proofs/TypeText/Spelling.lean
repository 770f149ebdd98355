import Trellis.Proofs.TypeText.Expression

/-! # Texts that spell tokens

* `Spells.append_iff`: the text of tokens in a row falls into the texts of its parts.
* `Spells.trim`: a text without the blanks around it spells the same tokens, and begins with the
  first of them. -/

namespace Trellis.TypeText

open Text.Blank

theorem notMem_marks_of_isBlank {c : Char} (h : Text.isBlank c = true) : c ∉ marks := by
  intro hc
  have hall : marks.all (! Text.isBlank ·) = true := by decide
  have hblank := List.all_eq_true.mp hall c hc
  rw [h] at hblank
  exact Bool.false_ne_true hblank

theorem notMem_marks_of_isWordChar {c : Char} (h : isWordChar c = true) : c ∉ marks := by
  intro hc
  rw [isWordChar, List.contains_iff_mem.mpr hc, Bool.not_true, Bool.and_false] at h
  exact Bool.false_ne_true h

namespace Spells

variable {f : Literal → Literal} {ts us : List Token} {t : Token} {s s' gap : List Char}

theorem cons_iff : Spells f (t :: ts) s ↔ ∃ gap s', s = gap ++ (t.chars f ++ s') ∧
    (IsGap gap) ∧ Spells f ts s' := by
  constructor
  · rintro (_ | ⟨hgap, h⟩)
    exact ⟨_, _, rfl, hgap, h⟩
  · rintro ⟨gap, s', rfl, hgap, h⟩
    exact .cons hgap h

theorem nil_iff : Spells f [] s ↔ IsGap s := by
  constructor
  · rintro (hgap | _)
    exact hgap
  · exact .nil

/-- Blanks may be put in front. -/
theorem gap_append (hgap : IsGap gap) (h : Spells f ts s) :
    Spells f ts (gap ++ s) := by
  cases h with
  | nil h => exact .nil (hgap.append h)
  | cons h h' =>
      rw [← List.append_assoc]
      exact .cons (hgap.append h) h'

theorem append (h : Spells f ts s) (h' : Spells f us s') : Spells f (ts ++ us) (s ++ s') := by
  induction h with
  | nil hgap => exact h'.gap_append hgap
  | cons hgap _ ih =>
      rw [List.append_assoc, List.append_assoc]
      exact .cons hgap ih

/-- The text of tokens in a row falls into the texts of its parts. -/
theorem append_iff : Spells f (ts ++ us) s ↔
    ∃ a b, s = a ++ b ∧ Spells f ts a ∧ Spells f us b := by
  constructor
  · induction ts generalizing s with
    | nil => exact fun h => ⟨[], s, rfl, .nil .nil, h⟩
    | cons t ts ih =>
        intro h
        obtain ⟨gap, s', rfl, hgap, h⟩ := cons_iff.mp h
        obtain ⟨a, b, rfl, ha, hb⟩ := ih h
        exact ⟨gap ++ (t.chars f ++ a), b, by simp only [List.append_assoc], .cons hgap ha, hb⟩
  · rintro ⟨a, b, rfl, ha, hb⟩
    exact ha.append hb

/-- Blanks may be put at the end. -/
theorem append_gap (h : Spells f ts s) (hgap : IsGap gap) :
    Spells f ts (s ++ gap) := by
  rw [← List.append_nil ts]
  exact h.append (.nil hgap)

/-- The text of each token is a part of the text of all. -/
theorem mem (h : Spells f ts s) (ht : t ∈ ts) {c : Char} (hc : c ∈ t.chars f) : c ∈ s := by
  induction h with
  | nil => exact absurd ht List.not_mem_nil
  | cons hgap h ih =>
      refine List.mem_append_right _ (List.mem_append.mpr ?_)
      rcases List.mem_cons.mp ht with rfl | ht
      · exact .inl hc
      · exact .inr (ih ht)

end Spells

/-! ### Texts without blanks around them -/

theorem Word.plain (w : Word) : ∀ c ∈ w.chars, isWordChar c = true :=
  List.all_eq_true.mp w.isPlain

theorem Literal.quote_ne (l : Literal) {c : Char} (h : c ≠ '\'') (h' : c ≠ '"') :
    l.quote ≠ c := by
  rcases l.isQuote with hq | hq <;> rw [hq]
  · exact h.symm
  · exact h'.symm

theorem Literal.tight_quote (l : Literal) : Text.isBlank l.quote = false := by
  rcases l.isQuote with hq | hq <;> rw [hq] <;> rfl

theorem Word.tight (w : Word) : ∀ c ∈ w.chars, Text.isBlank c = false := by
  intro c hc
  have := w.plain c hc
  rw [isWordChar, Bool.and_eq_true, Bool.not_eq_true'] at this
  exact this.1

/-- The text of a token neither begins nor ends with a blank. -/
theorem Token.tight_chars (f : Literal → Literal) (t : Token) : Tight (t.chars f) := by
  have hall {s : List Char} (h : ∀ c ∈ s, Text.isBlank c = false) : Tight s :=
    ⟨fun c hc => h c (List.mem_of_mem_head? hc), fun c hc => h c (List.mem_of_getLast? hc)⟩
  cases t with
  | word w => exact hall w.tight
  | literal l =>
      have hquote := (f l).tight_quote
      refine ⟨?_, ?_⟩
      · rintro _ ⟨⟩
        exact hquote
      · rw [Token.chars, Literal.chars, ← List.cons_append, List.getLast?_append]
        rintro _ ⟨⟩
        exact hquote
  | opening k => exact hall (List.forall_mem_singleton.mpr (by cases k <;> rfl))
  | closing k => exact hall (List.forall_mem_singleton.mpr (by cases k <;> rfl))
  | mark m => exact hall (List.forall_mem_singleton.mpr (by cases m <;> rfl))
  | bar => exact hall (List.forall_mem_singleton.mpr rfl)
  | arrow => exact ⟨fun c hc => by cases hc; rfl, fun c hc => by cases hc; rfl⟩

theorem Token.chars_ne_nil (f : Literal → Literal) (t : Token) : t.chars f ≠ [] := by
  cases t with
  | word w => exact w.nonempty
  | _ => exact List.cons_ne_nil _ _

namespace Spells

variable {f : Literal → Literal} {ts : List Token} {t u : Token} {s : List Char}

theorem nonempty (h : Spells f (t :: ts) s) : s ≠ [] := by
  obtain ⟨gap, s', rfl, -, -⟩ := cons_iff.mp h
  intro hnil
  exact t.chars_ne_nil f (List.append_eq_nil_iff.mp (List.append_eq_nil_iff.mp hnil).2).1

/-- A text of tokens begins with the first of them when the blanks around it are taken away. -/
theorem trim (h : Spells f (t :: ts) s) : ∃ rest,
    Text.Blank.trim s = t.chars f ++ rest ∧ Spells f ts rest ∧ Tight (t.chars f ++ rest) := by
  induction ts generalizing t s with
  | nil =>
      obtain ⟨gap, s', rfl, hgap, hs⟩ := cons_iff.mp h
      refine ⟨[], ?_, .nil .nil, ?_⟩
      · rw [trim_between hgap (t.tight_chars f) (nil_iff.mp hs), List.append_nil]
      · rw [List.append_nil]
        exact t.tight_chars f
  | cons u us ih =>
      obtain ⟨gap, s', rfl, hgap, hs⟩ := cons_iff.mp h
      obtain ⟨rest, htrim, hrest, htight⟩ := ih hs
      obtain ⟨g, g', hg, hg', heq⟩ := exists_between s'
      rw [htrim] at heq
      have hne : u.chars f ++ rest ≠ [] :=
        fun hnil => u.chars_ne_nil f (List.append_eq_nil_iff.mp hnil).1
      have hall : Tight (t.chars f ++ (g ++ (u.chars f ++ rest))) :=
        (t.tight_chars f).between (t.chars_ne_nil f) htight hne g
      refine ⟨g ++ (u.chars f ++ rest), ?_, .cons hg hrest, hall⟩
      have hsplit : gap ++ (t.chars f ++ s') =
          gap ++ ((t.chars f ++ (g ++ (u.chars f ++ rest))) ++ g') := by
        rw [heq]
        simp only [List.append_assoc]
      rw [hsplit, trim_between hgap hall hg']

/-- Without the blanks around it, a text spells the same tokens. -/
theorem of_trim (h : Spells f (t :: ts) s) :
    Spells f (t :: ts) (Text.Blank.trim s) ∧ Tight (Text.Blank.trim s) := by
  obtain ⟨rest, htrim, hrest, htight⟩ := h.trim
  rw [htrim]
  exact ⟨(Spells.cons IsGap.nil hrest :), htight⟩

/-- The text of brackets and what comes behind them, with the blanks in front of both. -/
theorem exists_bracket {k : Bracket} {inner : List Token}
    (h : Spells f (.opening k :: (inner ++ .closing k :: ts)) s) : ∃ gap a b,
    s = gap ++ ((k.opening :: (a ++ [k.closing])) ++ b) ∧ IsGap gap ∧ Spells f inner a ∧
      Spells f ts b := by
  obtain ⟨gap, s', rfl, hgap, h⟩ := cons_iff.mp h
  obtain ⟨a, b, rfl, ha, hb⟩ := append_iff.mp h
  obtain ⟨gap', b, rfl, hgap', hb⟩ := cons_iff.mp hb
  refine ⟨gap, a ++ gap', b, ?_, hgap, ha.append_gap hgap', hb⟩
  simp only [Token.chars, List.cons_append, List.nil_append, List.append_assoc]

/-- The text of brackets and what comes behind them. -/
theorem bracket {k : Bracket} {inner : List Token}
    (h : Spells f (.opening k :: (inner ++ .closing k :: ts)) s) : ∃ a b,
    Text.Blank.trim s = k.opening :: (a ++ k.closing :: b) ∧ Spells f inner a ∧ Spells f ts b := by
  obtain ⟨rest, htrim, hrest, -⟩ := h.trim
  obtain ⟨a, b, rfl, ha, hb⟩ := append_iff.mp hrest
  obtain ⟨gap, b, rfl, hgap, hb⟩ := cons_iff.mp hb
  refine ⟨a ++ gap, b, ?_, ha.append_gap hgap, hb⟩
  rw [htrim, List.append_assoc]
  rfl

/-- The text of brackets. -/
theorem enclosed {k : Bracket} (h : Spells f (.opening k :: (ts ++ [.closing k])) s) :
    ∃ inner, Text.Blank.trim s = k.opening :: (inner ++ [k.closing]) ∧ Spells f ts inner := by
  obtain ⟨inner, gap, htrim, hinner, hgap⟩ := h.bracket
  obtain ⟨rest, htrim', -, htight⟩ := h.trim
  rw [← htrim', htrim, ← List.concat_append, ← List.cons_append] at htight
  exact ⟨inner, by rw [htrim, htight.eq_nil (nil_iff.mp hgap)], hinner⟩

/-- The text of a word. -/
theorem trim_word {w : Word} (h : Spells f [.word w] s) : Text.Blank.trim s = w.chars := by
  obtain ⟨rest, htrim, hrest, htight⟩ := h.trim
  rw [htrim, htight.eq_nil (nil_iff.mp hrest), List.append_nil]
  rfl

end Spells

/-! ### Deciding whether a text spells tokens -/

/-- Reads tokens off a text one after the other. -/
def spells (f : Literal → Literal) : List Token → List Char → Bool
  | [], s => s.all Text.isBlank
  | t :: ts, s =>
    (t.chars f).isPrefixOf (trimStart s) && spells f ts ((trimStart s).drop (t.chars f).length)

theorem spells_iff {f : Literal → Literal} {ts : List Token} {s : List Char} :
    spells f ts s = true ↔ Spells f ts s := by
  induction ts generalizing s with
  | nil => rw [spells, List.all_eq_true, Spells.nil_iff]; rfl
  | cons t ts ih =>
      rw [spells, Bool.and_eq_true, List.isPrefixOf_iff_prefix, ih]
      constructor
      · rintro ⟨⟨rest, hrest⟩, h⟩
        rw [← hrest, List.drop_left] at h
        rw [← List.takeWhile_append_dropWhile (l := s), show s.dropWhile _ = _ from hrest.symm]
        exact .cons (List.all_eq_true.mp List.all_takeWhile) h
      · intro h
        obtain ⟨gap, rest, rfl, hgap, h⟩ := Spells.cons_iff.mp h
        have hstart : trimStart (gap ++ (t.chars f ++ rest)) = t.chars f ++ rest := by
          rw [trimStart_gap_append hgap]
          refine trimStart_of_startsTight fun c hc => (t.tight_chars f).head c ?_
          rw [List.head?_append, List.head?_eq_some_head (t.chars_ne_nil f)] at hc
          rw [List.head?_eq_some_head (t.chars_ne_nil f)]
          exact hc
        rw [hstart, List.drop_left]
        exact ⟨List.prefix_append _ _, h⟩

instance (f : Literal → Literal) (ts : List Token) (s : List Char) : Decidable (Spells f ts s) :=
  decidable_of_iff _ spells_iff

end Trellis.TypeText
