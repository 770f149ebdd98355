import Trellis.Contract.Member
import Trellis.Proofs.TypeText.Scanning

/-! # Types on one line

The text of a declared type is normalised: each run of blanks becomes one space, in literals too,
and a leading bar goes away.

* `Literal.squeeze` is what becomes of a literal. It stays a literal that ends where it did.
* `TypeExpr.writtenAs_normalize`: the normalised text of a type is a text of the same type, with its
  literals squeezed. -/

namespace Trellis.TypeText

open Text.Blank

/-! ### Squeezed literals -/

theorem isContent_cons {q c : Char} (hc : c ≠ '\\') (s : List Char) :
    isContent q (c :: s) = (decide (c ≠ q) && isContent q s) := by
  rw [isContent.eq_3 q c s (by rintro _ _ rfl; exact absurd rfl hc)]
  simp [hc]

theorem ne_backslash_of_isBlank {c : Char} (h : Text.isBlank c = true) : c ≠ '\\' := by
  rintro rfl
  revert h
  decide

theorem isContent_trimStart {q : Char} {s : List Char} (h : isContent q s = true) :
    isContent q (trimStart s) = true := by
  induction s with
  | nil => exact h
  | cons c s ih =>
      rw [trimStart_cons]
      split
      · next hc =>
        rw [isContent_cons (ne_backslash_of_isBlank hc), Bool.and_eq_true] at h
        exact ih h.2
      · exact h

theorem isContent_squeeze {q : Char} (hq : Text.isBlank q = false) {s : List Char}
    (h : isContent q s = true) : isContent q (squeeze s) = true := by
  have hspace : ' ' ≠ q := by
    rintro rfl
    cases hq
  fun_induction isContent q s with
  | case1 => rfl
  | case2 c s ih =>
      rw [squeeze_of_not_blank (by rfl)]
      cases hc : Text.isBlank c with
      | true =>
          rw [squeeze_of_blank hc, isContent]
          exact isContent_trimStart (ih h)
      | false =>
          rw [squeeze_of_not_blank hc, isContent]
          exact ih h
  | case3 c s _ ih =>
      rw [Bool.and_eq_true, Bool.and_eq_true, decide_eq_true_eq, decide_eq_true_eq] at h
      cases hc : Text.isBlank c with
      | true =>
          rw [squeeze_of_blank hc, isContent_cons (by decide), decide_eq_true hspace,
            Bool.true_and]
          exact isContent_trimStart (ih h.2)
      | false =>
          rw [squeeze_of_not_blank hc, isContent_cons h.1.2, decide_eq_true h.1.1, Bool.true_and]
          exact ih h.2

/-- A literal with one space for each run of blanks. -/
def Literal.squeeze (l : Literal) : Literal :=
  ⟨l.quote, Text.Blank.squeeze l.content, l.isQuote, isContent_squeeze l.tight_quote l.isContent⟩

theorem Literal.squeeze_chars (l : Literal) :
    Text.Blank.squeeze l.chars = l.squeeze.chars := by
  have hquote : StartsTight [l.quote] := by
    rintro _ ⟨⟩
    exact l.tight_quote
  rw [Literal.chars, squeeze_of_not_blank l.tight_quote, squeeze_append_of_startsTight hquote,
    squeeze_of_not_blank l.tight_quote]
  rfl

theorem getLast?_cons_of_some {s : List Char} {c x : Char} (h : s.getLast? = some c) :
    (x :: s).getLast? = some c := by
  rw [List.getLast?_cons, h]
  rfl

theorem getLast?_trimStart {s : List Char} {c : Char} (h : (trimStart s).getLast? = some c) :
    s.getLast? = some c := by
  induction s with
  | nil => exact h
  | cons x s ih =>
      rw [trimStart_cons] at h
      split at h
      · exact getLast?_cons_of_some (ih h)
      · exact h

/-- What is no blank at the end was there before squeezing. -/
theorem getLast?_squeeze {s : List Char} {c : Char} (hc : Text.isBlank c = false)
    (h : (squeeze s).getLast? = some c) : s.getLast? = some c := by
  induction s with
  | nil => exact h
  | cons x s ih =>
      cases hx : Text.isBlank x with
      | true =>
          rw [squeeze_of_blank hx, List.getLast?_cons] at h
          cases hlast : (trimStart (squeeze s)).getLast? with
          | none =>
              rw [hlast] at h
              cases h
              cases hc
          | some y =>
              rw [hlast] at h
              cases h
              exact getLast?_cons_of_some (ih (getLast?_trimStart hlast))
      | false =>
          rw [squeeze_of_not_blank hx, List.getLast?_cons] at h
          cases hlast : (squeeze s).getLast? with
          | none =>
              have hs : s = [] := by
                cases s with
                | nil => rfl
                | cons y s =>
                    rw [List.getLast?_eq_none_iff, squeeze] at hlast
                    split at hlast <;> cases hlast
              rw [hlast] at h
              rw [hs]
              exact h
          | some y =>
              rw [hlast] at h
              cases h
              exact getLast?_cons_of_some (ih hlast)

/-- Squeezing a literal does not put a backslash before its closing quote. -/
theorem Literal.Closes.squeeze {l : Literal} (h : l.Closes) : l.squeeze.Closes :=
  fun hlast => h (getLast?_squeeze (by rfl) hlast)

theorem closesParens_of_isBlank {c : Char} (hc : Text.isBlank c = true) (opened : Nat)
    (s : List Char) : closesParens opened (c :: s) = closesParens opened s := by
  have hmarks := notMem_marks_of_isBlank hc
  simp only [marks, List.mem_cons, not_or] at hmarks
  rw [closesParens, if_neg hmarks.1, if_neg hmarks.2.1]

theorem closesParens_trimStart (opened : Nat) (s : List Char) :
    closesParens opened (trimStart s) = closesParens opened s := by
  induction s with
  | nil => rfl
  | cons c s ih =>
      rw [trimStart_cons]
      split
      · next hc => rw [closesParens_of_isBlank hc, ih]
      · rfl

theorem closesParens_squeeze (opened : Nat) (s : List Char) :
    closesParens opened (squeeze s) = closesParens opened s := by
  induction s generalizing opened with
  | nil => rfl
  | cons c s ih =>
      cases hc : Text.isBlank c with
      | true =>
          rw [squeeze_of_blank hc, closesParens_of_isBlank (by rfl), closesParens_of_isBlank hc,
            closesParens_trimStart, ih]
      | false =>
          rw [squeeze_of_not_blank hc]
          simp only [closesParens, ih]

theorem Literal.squeeze_balanced {l : Literal} : l.squeeze.Balanced ↔ l.Balanced := by
  rw [Literal.Balanced, Literal.squeeze, closesParens_squeeze]
  rfl

/-! ### Squeezed texts -/

/-- A token stays the same but for the blanks in a literal. -/
theorem Token.squeeze_chars (t : Token) :
    Text.Blank.squeeze (t.chars id) = t.chars Literal.squeeze := by
  cases t with
  | literal l => exact l.squeeze_chars
  | word w => exact squeeze_of_no_blank w.tight
  | opening k => cases k <;> rfl
  | closing k => cases k <;> rfl
  | mark m => cases m <;> rfl
  | bar => rfl
  | arrow => rfl

/-- A squeezed text spells the same tokens, with squeezed literals. -/
theorem Spells.squeeze {ts : List Token} {s : List Char} (h : Spells id ts s) :
    Spells Literal.squeeze ts (Text.Blank.squeeze s) := by
  induction h with
  | nil hgap => exact .nil (isGap_squeeze.mpr hgap)
  | @cons gap s t ts hgap _ ih =>
      have htight := t.tight_chars id
      have hhead : StartsTight (t.chars id ++ s) := by
        intro c hc
        rw [List.head?_append, List.head?_eq_some_head (t.chars_ne_nil id)] at hc
        exact htight.head c (List.head?_eq_some_head (t.chars_ne_nil id) ▸ hc)
      rw [squeeze_append_of_startsTight hhead,
        squeeze_append_of_last (t.chars_ne_nil id) htight.last, t.squeeze_chars]
      exact .cons (isGap_squeeze.mpr hgap) ih

/-! ### The first and the last token of a type -/

/-- Whether a token may be the first of an operand. -/
def Token.starts : Token → Bool
  | .word _ | .literal _ | .opening _ => true
  | _ => false

/-- Whether a token may be the last of an operand. -/
def Token.ends : Token → Bool
  | .word _ | .literal _ | .closing _ => true
  | _ => false

theorem Operand.exists_first (o : Operand) : ∃ u ts, o.tokens = u :: ts ∧ u.starts = true := by
  cases o with
  | word w => exact ⟨.word w, [], rfl, rfl⟩
  | literal l => exact ⟨.literal l, [], rfl, rfl⟩
  | array element =>
      obtain ⟨u, ts, htokens, hu⟩ := element.exists_first
      exact ⟨u, ts ++ [.opening .square, .closing .square],
        by rw [Operand.tokens, htokens]; rfl, hu⟩
  | generic name _ _ => exact ⟨.word name, _, rfl, rfl⟩
  | object _ _ _ => exact ⟨.opening .curly, _, rfl, rfl⟩
  | paren _ => exact ⟨.opening .round, _, rfl, rfl⟩

theorem Operand.exists_last (o : Operand) : ∃ ts u, o.tokens = ts ++ [u] ∧ u.ends = true := by
  cases o with
  | word w => exact ⟨[], .word w, rfl, rfl⟩
  | literal l => exact ⟨[], .literal l, rfl, rfl⟩
  | array element =>
      exact ⟨element.tokens ++ [.opening .square], .closing .square, by
        rw [Operand.tokens, List.append_assoc]; rfl, rfl⟩
  | generic name first rest =>
      exact ⟨.word name :: .opening .angle :: (first.tokens ++ argumentTokens rest),
        .closing .angle, rfl, rfl⟩
  | object separator trailing entries =>
      exact ⟨.opening .curly :: (entryTokens separator entries ++ separator.tokens trailing),
        .closing .curly, rfl, rfl⟩
  | paren type => exact ⟨.opening .round :: type.tokens, .closing .round, rfl, rfl⟩

theorem TypeExpr.exists_first (t : TypeExpr) : ∃ u ts, t.tokens = u :: ts ∧ u.starts = true := by
  cases t with
  | function params result => exact ⟨.opening .round, _, rfl, rfl⟩
  | union first rest =>
      obtain ⟨u, ts, htokens, hu⟩ := first.exists_first
      exact ⟨u, ts ++ barTokens rest, by rw [TypeExpr.tokens, htokens]; rfl, hu⟩

theorem exists_last_barTokens {ts : List Token} {u : Token} (hu : u.ends = true)
    (ms : List Operand) : ∃ us v, ts ++ [u] ++ barTokens ms = us ++ [v] ∧ v.ends = true := by
  induction ms generalizing ts u with
  | nil => exact ⟨ts, u, List.append_nil _, hu⟩
  | cons m ms ih =>
      obtain ⟨us, v, htokens, hv⟩ := m.exists_last
      obtain ⟨us', v', heq, hv'⟩ := @ih (ts ++ [u] ++ .bar :: us) v hv
      refine ⟨us', v', ?_, hv'⟩
      rw [← heq, barTokens, htokens]
      simp only [List.append_assoc, List.cons_append]

theorem TypeExpr.exists_last (t : TypeExpr) : ∃ ts u, t.tokens = ts ++ [u] ∧ u.ends = true := by
  fun_induction TypeExpr.later t with
  | case1 params result ih =>
      obtain ⟨ts, u, htokens, hu⟩ := ih
      refine ⟨.opening .round :: (entryTokens .comma params ++ .closing .round :: .arrow :: ts), u,
        ?_, hu⟩
      rw [TypeExpr.tokens, htokens]
      simp only [List.append_assoc, List.cons_append]
  | case2 first rest =>
      obtain ⟨ts, u, htokens, hu⟩ := first.exists_last
      rw [TypeExpr.tokens, htokens]
      exact exists_last_barTokens hu rest

/-! ### Normalised texts -/

theorem Token.head_ne_bar {u : Token} (hu : u.starts = true) (f : Literal → Literal) :
    (u.chars f).head? ≠ some '|' := by
  intro h
  cases u with
  | word w => exact absurd (w.plain '|' (List.mem_of_mem_head? h)) (by decide)
  | literal l => exact (f l).quote_ne (by decide) (by decide) (Option.some.inj h)
  | opening k => cases k <;> simp [Token.chars, Bracket.opening] at h
  | _ => cases hu

theorem Token.last_not_separator {u : Token} (hu : u.ends = true) (f : Literal → Literal) :
    ∀ c ∈ (u.chars f).getLast?, ¬ (c = ';' ∨ c = ',') := by
  intro c hc
  cases u with
  | word w =>
      have hplain := w.plain c (List.mem_of_getLast? hc)
      rintro (rfl | rfl) <;> revert hplain <;> decide
  | literal l =>
      rw [Token.chars, Literal.chars, ← List.cons_append, List.getLast?_append] at hc
      cases hc
      exact not_or.mpr ⟨(f l).quote_ne (by decide) (by decide),
        (f l).quote_ne (by decide) (by decide)⟩
  | closing k =>
      cases k <;> cases hc <;> decide
  | _ => cases hu

section Normal

variable {f : Literal → Literal} {ts : List Token} {u : Token} {s : List Char}

theorem Spells.getLast? (h : Spells f (ts ++ [u]) s) (htight : Tight s) :
    s.getLast? = (u.chars f).getLast? := by
  obtain ⟨a, b, rfl, -, hb⟩ := append_iff.mp h
  obtain ⟨gap, gap', rfl, -, hgap'⟩ := cons_iff.mp hb
  rw [← List.append_assoc, ← List.append_assoc] at htight
  rw [htight.eq_nil (nil_iff.mp hgap'), List.append_nil, List.getLast?_append,
    List.getLast?_append, List.getLast?_eq_some_getLast (u.chars_ne_nil f)]
  rfl

/-- No bar is dropped in front of what begins otherwise. -/
theorem Spells.dropWhile_bar (h : Spells f (u :: ts) s) (hu : u.starts = true) :
    s.dropWhile (· = '|') = s := by
  have hbar : ∀ c ∈ s.head?, c ≠ '|' := by
    obtain ⟨gap, s', rfl, hgap, -⟩ := cons_iff.mp h
    intro c hc
    cases gap with
    | nil =>
        rw [List.nil_append, List.head?_append, List.head?_eq_some_head (u.chars_ne_nil f)] at hc
        rintro rfl
        exact u.head_ne_bar hu f (List.head?_eq_some_head (u.chars_ne_nil f) ▸ hc)
    | cons x gap =>
        cases hc
        rintro rfl
        exact absurd (hgap '|' List.mem_cons_self) (by decide)
  cases s with
  | nil => rfl
  | cons c s => rw [List.dropWhile_cons, if_neg (by simpa using hbar c rfl)]

/-- No separator is dropped behind what ends otherwise. -/
theorem dropWhile_separators (h : ∀ c ∈ s.getLast?, ¬ (c = ';' ∨ c = ',')) :
    (s.reverse.dropWhile fun c => c = ';' || c = ',').reverse = s := by
  rw [← List.head?_reverse] at h
  rw [List.reverse_eq_iff]
  cases hs : s.reverse with
  | nil => rfl
  | cons c rest =>
      rw [List.dropWhile_cons, if_neg]
      simpa using h c (by rw [hs]; rfl)

end Normal

theorem normalize_eq {source : String} {ts : List Token} {v : Token}
    (h : Spells id (ts ++ [v]) source.toList) (hv : v.ends = true) : normalize source =
      String.ofList (trim ((trim (squeeze source.toList)).dropWhile (· = '|'))) := by
  have hend : ∀ c ∈ (trim (squeeze source.toList)).getLast?, ¬ (c = ';' ∨ c = ',') := by
    obtain ⟨t, us, ht⟩ := List.exists_cons_of_ne_nil (List.concat_ne_nil v ts)
    rw [ht] at h
    obtain ⟨hspells, htight⟩ := h.squeeze.of_trim
    rw [← ht] at hspells
    rw [hspells.getLast? htight]
    exact v.last_not_separator hv Literal.squeeze
  rw [normalize, Text.collapse_eq, String.toList_ofList, dropWhile_separators hend]

/-- The normalised text of a type is a text of the same type with squeezed literals and no bar in
front. -/
theorem TypeExpr.spells_normalize {t : TypeExpr} {source : String} (h : t.WrittenAs id source) :
    Spells Literal.squeeze t.tokens (normalize source).toList := by
  obtain ⟨u, us, hfirst, hu⟩ := t.exists_first
  obtain ⟨vs, v, hlast, hv⟩ := t.exists_last
  rcases h with h | h
  · rw [normalize_eq (hlast ▸ h) hv, String.toList_ofList]
    rw [hfirst] at h ⊢
    have hspells := h.squeeze.of_trim.1
    rw [hspells.dropWhile_bar hu]
    exact hspells.of_trim.1
  · have hspells : Spells id ((.bar :: vs) ++ [v]) source.toList := by
      rw [List.cons_append, ← hlast]
      exact h
    rw [normalize_eq hspells hv, String.toList_ofList]
    obtain ⟨rest, htrim, hrest, -⟩ := h.squeeze.trim
    rw [hfirst] at hrest ⊢
    rw [htrim, show Token.chars Literal.squeeze .bar = ['|'] from rfl, List.singleton_append,
      List.dropWhile_cons, if_pos (by rfl), hrest.dropWhile_bar hu]
    exact hrest.of_trim.1

end Trellis.TypeText
