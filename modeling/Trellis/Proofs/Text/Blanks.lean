import Trellis.Text.Blank

/-! # Blanks that are taken away

* `Tight` says that a text neither begins nor ends with a blank; `trim` leaves such a text between
  blanks.
* `squeeze` makes one space of each run of blanks, and leaves the `Regular` texts as they are.
  Joining the words of a text by spaces is squeezing and trimming it (`collapse_eq`). -/

namespace Trellis.Text

namespace Blank

/-- Whether all characters are blank. -/
def IsGap (s : List Char) : Prop := ∀ c ∈ s, isBlank c = true

theorem IsGap.nil : IsGap [] := fun _ h => absurd h List.not_mem_nil

theorem isGap_cons {c : Char} {s : List Char} : IsGap (c :: s) ↔ isBlank c = true ∧ IsGap s :=
  List.forall_mem_cons

theorem IsGap.append {s s' : List Char} (h : IsGap s) (h' : IsGap s') : IsGap (s ++ s') :=
  fun c hc => (List.mem_append.mp hc).elim (h c) (h' c)

/-- Whether a text begins with no blank. -/
def StartsTight (s : List Char) : Prop := ∀ c ∈ s.head?, isBlank c = false

/-- Whether a text neither begins nor ends with a blank. -/
structure Tight (s : List Char) : Prop where
  /-- It begins with no blank. -/
  head : StartsTight s
  /-- It ends with no blank. -/
  last : ∀ c ∈ s.getLast?, isBlank c = false

/-- What stands between two tight texts does not matter. -/
theorem Tight.between {s s' : List Char} (h : Tight s) (hne : s ≠ []) (h' : Tight s')
    (hne' : s' ≠ []) (middle : List Char) : Tight (s ++ (middle ++ s')) where
  head c hc := by
    rw [List.head?_append, List.head?_eq_some_head hne] at hc
    exact h.head c (List.head?_eq_some_head hne ▸ hc)
  last c hc := by
    rw [List.getLast?_append, List.getLast?_append, List.getLast?_eq_some_getLast hne'] at hc
    exact h'.last c (List.getLast?_eq_some_getLast hne' ▸ hc)

/-- A tight text has no blanks at its end. -/
theorem Tight.eq_nil {s gap : List Char} (h : Tight (s ++ gap)) (hgap : IsGap gap) : gap = [] := by
  cases hlast : gap.getLast? with
  | none => exact List.getLast?_eq_none_iff.mp hlast
  | some c =>
      have hc := h.last c (by rw [List.getLast?_append, hlast]; rfl)
      rw [hgap c (List.mem_of_getLast? hlast)] at hc
      cases hc

/-! ### Trimming -/

theorem trimStart_cons {c : Char} {s : List Char} :
    trimStart (c :: s) = if isBlank c then trimStart s else c :: s := List.dropWhile_cons

theorem trimStart_of_startsTight {s : List Char} (h : StartsTight s) : trimStart s = s := by
  cases s with
  | nil => rfl
  | cons c s => rw [trimStart_cons, h c rfl, if_neg Bool.false_ne_true]

theorem startsTight_trimStart (s : List Char) : StartsTight (trimStart s) := by
  induction s with
  | nil => exact fun _ h => nomatch h
  | cons c s ih =>
      rw [trimStart_cons]
      split
      · exact ih
      · next hc =>
        rintro _ ⟨⟩
        exact Bool.eq_false_iff.mpr hc

theorem isGap_trimStart {s : List Char} : IsGap (trimStart s) ↔ IsGap s := by
  induction s with
  | nil => rfl
  | cons c s ih =>
      rw [trimStart_cons]
      split
      · next hc => rw [ih, isGap_cons, hc, eq_self, true_and]
      · rfl

theorem trimStart_gap_append {gap : List Char} (h : IsGap gap) (s : List Char) :
    trimStart (gap ++ s) = trimStart s := List.dropWhile_append_of_pos h

theorem trimStart_of_isGap {s : List Char} (h : IsGap s) : trimStart s = [] := by
  have := trimStart_gap_append h []
  rwa [List.append_nil] at this

theorem trimStart_append {s s' : List Char} (h : ¬ IsGap s) :
    trimStart (s ++ s') = trimStart s ++ s' := by
  induction s with
  | nil => exact absurd IsGap.nil h
  | cons c s ih =>
      rw [List.cons_append, trimStart_cons, trimStart_cons]
      split
      · next hc => exact ih fun hs => h (isGap_cons.mpr ⟨hc, hs⟩)
      · rfl

theorem not_isGap_of_trimStart {s : List Char} (h : trimStart s ≠ []) : ¬ IsGap s :=
  fun hs => h (trimStart_of_isGap hs)

/-- A text after blanks is its second part after what is left of the first one. -/
theorem trimStart_append_of_startsTight {s s' : List Char} (h : StartsTight s') :
    trimStart (s ++ s') = trimStart s ++ s' := by
  by_cases hs : IsGap s
  · rw [trimStart_gap_append hs, trimStart_of_isGap hs, trimStart_of_startsTight h]
    rfl
  · exact trimStart_append hs

theorem mem_trimStart {c : Char} (hc : isBlank c = false) {s : List Char} :
    c ∈ trimStart s ↔ c ∈ s := by
  induction s with
  | nil => rfl
  | cons x s ih =>
      rw [trimStart_cons]
      split
      · next hx =>
        rw [ih, List.mem_cons, or_iff_right]
        rintro rfl
        rw [hc] at hx
        cases hx
      · rfl

theorem mem_of_mem_trimStart {c : Char} {s : List Char} (h : c ∈ trimStart s) : c ∈ s :=
  (List.dropWhile_suffix _).mem h

theorem trimEnd_eq (s : List Char) : trimEnd s = (trimStart s.reverse).reverse := rfl

theorem mem_of_mem_trimEnd {c : Char} {s : List Char} (h : c ∈ trimEnd s) : c ∈ s :=
  List.mem_reverse.mp (mem_of_mem_trimStart (List.mem_reverse.mp h))

theorem trimEnd_append_of_last {s r : List Char} (h : ∀ c ∈ s.getLast?, isBlank c = false) :
    trimEnd (s ++ r) = s ++ trimEnd r := by
  rw [trimEnd_eq, List.reverse_append, trimStart_append_of_startsTight, List.reverse_append,
    List.reverse_reverse, trimEnd_eq]
  rwa [StartsTight, List.head?_reverse]

theorem trimEnd_append_gap {gap : List Char} (h : IsGap gap) (s : List Char) :
    trimEnd (s ++ gap) = trimEnd s := by
  rw [trimEnd, List.reverse_append,
    List.dropWhile_append_of_pos fun c hc => h c (List.mem_reverse.mp hc), trimEnd]

theorem trimEnd_of_last {s : List Char} (h : ∀ c ∈ s.getLast?, isBlank c = false) :
    trimEnd s = s := by
  rw [← List.head?_reverse] at h
  exact List.reverse_eq_iff.mpr (trimStart_of_startsTight h)

theorem isGap_reverse {s : List Char} : IsGap s.reverse ↔ IsGap s := by
  simp only [IsGap, List.mem_reverse]

theorem trimEnd_of_isGap {s : List Char} (h : IsGap s) : trimEnd s = [] := by
  have := trimEnd_append_gap h []
  rwa [List.nil_append] at this

theorem trimEnd_cons {c : Char} {s : List Char} (h : isBlank c = false ∨ ¬ IsGap s) :
    trimEnd (c :: s) = c :: trimEnd s := by
  rw [trimEnd, List.reverse_cons]
  by_cases hs : IsGap s
  · have hc : isBlank c = false := h.resolve_right (not_not_intro hs)
    rw [trimEnd_of_isGap hs, List.dropWhile_append_of_pos (isGap_reverse.mpr hs),
      List.dropWhile_cons, hc]
    rfl
  · have := @trimStart_append _ [c] (mt isGap_reverse.mp hs)
    rw [trimStart] at this
    rw [this, List.reverse_append]
    rfl

/-- What is left of a tight text between blanks. -/
theorem trim_between {gap s gap' : List Char} (hgap : IsGap gap) (h : Tight s)
    (hgap' : IsGap gap') : trim (gap ++ (s ++ gap')) = s := by
  rw [trim, trimStart_gap_append hgap]
  cases s with
  | nil =>
      rw [List.nil_append, trimStart_of_isGap hgap']
      rfl
  | cons c s =>
      rw [trimStart_of_startsTight fun x hx => h.head x (by simpa using hx),
        trimEnd_append_gap hgap', trimEnd_of_last h.last]

/-- A text is what trimming leaves of it, between blanks. -/
theorem exists_between (s : List Char) :
    ∃ gap gap', IsGap gap ∧ IsGap gap' ∧ s = gap ++ (trim s ++ gap') := by
  have hstart : s = s.takeWhile isBlank ++ trimStart s := List.takeWhile_append_dropWhile.symm
  have hend : trimStart s =
      trim s ++ ((trimStart s).reverse.takeWhile isBlank).reverse := by
    rw [trim, trimEnd, ← List.reverse_append, List.takeWhile_append_dropWhile, List.reverse_reverse]
  have hgap (s : List Char) : IsGap (s.takeWhile isBlank) := List.all_eq_true.mp List.all_takeWhile
  refine ⟨s.takeWhile isBlank, ((trimStart s).reverse.takeWhile isBlank).reverse, hgap s,
    isGap_reverse.mpr (hgap _), ?_⟩
  rw [← hend, ← hstart]

/-! ### Squeezing -/

/-- Makes one space of each run of blanks. -/
def squeeze : List Char → List Char
  | [] => []
  | c :: s => if isBlank c then ' ' :: trimStart (squeeze s) else c :: squeeze s

theorem squeeze_of_blank {c : Char} (h : isBlank c = true) (s : List Char) :
    squeeze (c :: s) = ' ' :: trimStart (squeeze s) := if_pos h

theorem squeeze_of_not_blank {c : Char} (h : isBlank c = false) (s : List Char) :
    squeeze (c :: s) = c :: squeeze s := if_neg (Bool.eq_false_iff.mp h)

theorem isGap_squeeze {s : List Char} : IsGap (squeeze s) ↔ IsGap s := by
  induction s with
  | nil => rfl
  | cons c s ih =>
      rw [squeeze]
      split
      · next hc => simp only [isGap_cons, isGap_trimStart, ih, hc, show isBlank ' ' = true from rfl]
      · rw [isGap_cons, isGap_cons, ih]

theorem startsTight_squeeze {s : List Char} (h : StartsTight s) : StartsTight (squeeze s) := by
  cases s with
  | nil => exact h
  | cons c s =>
      rw [squeeze_of_not_blank (h c rfl)]
      exact h

theorem mem_squeeze {c : Char} (hc : isBlank c = false) {s : List Char} :
    c ∈ squeeze s ↔ c ∈ s := by
  induction s with
  | nil => rfl
  | cons x s ih =>
      rw [squeeze]
      split
      · next hx =>
        rw [List.mem_cons, List.mem_cons, mem_trimStart hc, ih]
        refine or_congr_left (iff_of_false ?_ ?_)
        · rintro rfl
          cases hc
        · rintro rfl
          rw [hc] at hx
          cases hx
      · rw [List.mem_cons, List.mem_cons, ih]

/-- What is no blank at the beginning was there before squeezing. -/
theorem head?_of_squeeze {s : List Char} {c : Char} (hc : isBlank c = false)
    (h : (squeeze s).head? = some c) : s.head? = some c := by
  cases s with
  | nil => cases h
  | cons x s =>
      rw [squeeze] at h
      split at h
      · cases h
        cases hc
      · exact h

/-- Squeezing goes part by part where the second part begins with no blank. -/
theorem squeeze_append_of_startsTight {s s' : List Char} (h : StartsTight s') :
    squeeze (s ++ s') = squeeze s ++ squeeze s' := by
  induction s with
  | nil => rfl
  | cons c s ih =>
      rw [List.cons_append, squeeze, squeeze, ih]
      split
      · by_cases hs : IsGap (squeeze s)
        · rw [trimStart_gap_append hs, trimStart_of_startsTight (startsTight_squeeze h)]
          rw [trimStart_of_isGap hs, List.singleton_append]
        · rw [trimStart_append hs, List.cons_append]
      · rfl

/-- Squeezing goes part by part where the first part ends with no blank. -/
theorem squeeze_append_of_last {s s' : List Char} (hne : s ≠ [])
    (h : ∀ c ∈ s.getLast?, isBlank c = false) : squeeze (s ++ s') = squeeze s ++ squeeze s' := by
  induction s with
  | nil => exact absurd rfl hne
  | cons c s ih =>
      cases s with
      | nil =>
          rw [List.singleton_append, squeeze_of_not_blank (h c rfl), squeeze_of_not_blank (h c rfl)]
          rfl
      | cons x s =>
          rw [List.cons_append, squeeze, squeeze, ih (List.cons_ne_nil x s) fun y hy => h y (by
            rwa [List.getLast?_cons_cons])]
          split
          · rw [trimStart_append, List.cons_append]
            rw [isGap_squeeze]
            intro hgap
            have hy := List.getLast?_eq_some_getLast (List.cons_ne_nil x s)
            have hlast := h _ (by rw [List.getLast?_cons_cons]; exact hy)
            rw [hgap _ (List.mem_of_getLast? hy)] at hlast
            cases hlast
          · rfl

theorem squeeze_of_no_blank {s : List Char} (h : ∀ c ∈ s, isBlank c = false) : squeeze s = s := by
  induction s with
  | nil => rfl
  | cons c s ih =>
      rw [squeeze_of_not_blank (h c List.mem_cons_self),
        ih fun x hx => h x (List.mem_cons_of_mem c hx)]

/-- Whether each blank is a space, with no other blank behind it. -/
def Regular : List Char → Prop
  | [] => True
  | c :: s => (isBlank c = true → c = ' ' ∧ StartsTight s) ∧ Regular s

/-- Just the regular texts stay as they are. -/
theorem squeeze_eq_self_iff {s : List Char} : squeeze s = s ↔ Regular s := by
  induction s with
  | nil => exact ⟨fun _ => trivial, fun _ => rfl⟩
  | cons c s ih =>
      rw [Regular, ← ih]
      cases hc : isBlank c with
      | true =>
          rw [squeeze_of_blank hc, List.cons.injEq]
          constructor
          · rintro ⟨rfl, heq⟩
            have htight : StartsTight s := heq ▸ startsTight_trimStart _
            rw [trimStart_of_startsTight (startsTight_squeeze htight)] at heq
            exact ⟨fun _ => ⟨rfl, htight⟩, heq⟩
          · rintro ⟨hspace, heq⟩
            obtain ⟨rfl, htight⟩ := hspace rfl
            exact ⟨rfl, by rw [heq, trimStart_of_startsTight htight]⟩
      | false =>
          rw [squeeze_of_not_blank hc, List.cons.injEq, eq_self, true_and]
          exact ⟨fun h => ⟨fun h => absurd h Bool.false_ne_true, h⟩, And.right⟩

/-! ### Words -/

theorem wordsFrom_ne_nil {word : List Char} (h : word ≠ []) (s : List Char) :
    wordsFrom word s ≠ [] := by
  induction s generalizing word with
  | nil =>
      rw [wordsFrom, if_neg (by rwa [List.isEmpty_iff])]
      exact List.cons_ne_nil _ _
  | cons c s ih =>
      rw [wordsFrom]
      split
      · rw [if_neg (by rwa [List.isEmpty_iff])]
        exact List.cons_ne_nil _ _
      · exact ih (List.concat_ne_nil c word)

theorem words_eq_nil_iff {s : List Char} : words s = [] ↔ IsGap s := by
  rw [words]
  induction s with
  | nil => exact ⟨fun _ => .nil, fun _ => rfl⟩
  | cons c s ih =>
      rw [wordsFrom, isGap_cons]
      split
      · next hc =>
        rw [if_pos List.isEmpty_nil, ih, hc, eq_self, true_and]
      · next hc =>
        exact ⟨fun h => absurd h (wordsFrom_ne_nil (List.concat_ne_nil c []) s),
          fun h => absurd h.1 hc⟩

/-- The words of a text, joined by spaces, behind a word that is not over yet. -/
theorem intercalate_wordsFrom (s : List Char) :
    (∀ word, word ≠ [] → [' '].intercalate (wordsFrom word s) = word ++ trimEnd (squeeze s)) ∧
    [' '].intercalate (words s) = trim (squeeze s) := by
  -- Both at once: a blank ends the word, and what is no blank begins one.
  induction s with
  | nil =>
      refine ⟨fun word hword => ?_, rfl⟩
      rw [wordsFrom, if_neg (by rwa [List.isEmpty_iff]), List.intercalate_singleton]
      exact (List.append_nil word).symm
  | cons c s ih =>
      obtain ⟨ih, ih'⟩ := ih
      rw [words, trim]
      cases hc : isBlank c with
      | true =>
          have hgap : words s = [] ↔ IsGap (trimStart (squeeze s)) := by
            rw [words_eq_nil_iff, isGap_trimStart, isGap_squeeze]
          rw [squeeze_of_blank hc]
          refine ⟨fun word hword => ?_, ?_⟩
          · rw [wordsFrom, if_pos hc, if_neg (by rwa [List.isEmpty_iff])]
            cases hs : wordsFrom [] s with
            | nil =>
                rw [List.intercalate_singleton,
                  trimEnd_of_isGap (isGap_cons.mpr ⟨rfl, hgap.mp hs⟩), List.append_nil]
            | cons w ws =>
                have hnot : ¬ IsGap (trimStart (squeeze s)) := by
                  rw [← hgap, words, hs]
                  exact List.cons_ne_nil w ws
                rw [words, hs] at ih'
                rw [List.intercalate_cons_cons, ih', trimEnd_cons (.inr hnot), trim,
                  List.append_assoc, List.singleton_append]
          · rw [wordsFrom, if_pos hc, if_pos List.isEmpty_nil, trimStart_cons, if_pos (by rfl),
              trimStart_of_startsTight (startsTight_trimStart _)]
            exact ih'
      | false =>
          rw [squeeze_of_not_blank hc, trimStart_cons, hc, if_neg Bool.false_ne_true,
            trimEnd_cons (.inl hc)]
          refine ⟨fun word hword => ?_, ?_⟩
          · rw [wordsFrom, hc, if_neg Bool.false_ne_true, ih _ (List.concat_ne_nil c word),
              List.append_assoc, List.singleton_append]
          · rw [wordsFrom, hc, if_neg Bool.false_ne_true, ih _ (List.concat_ne_nil c []),
              List.nil_append, List.singleton_append]

end Blank

/-- Joining the words of a text by spaces is squeezing and trimming it. -/
theorem collapse_eq (s : String) :
    collapse s = String.ofList (Blank.trim (Blank.squeeze s.toList)) := by
  have hid : (String.toList ∘ String.ofList) = id := funext fun cs => String.toList_ofList
  rw [← (Blank.intercalate_wordsFrom s.toList).2, collapse, ← String.ofList_toList
    (s := String.intercalate _ _), String.toList_intercalate, List.map_map, hid, List.map_id]
  rfl

end Trellis.Text
