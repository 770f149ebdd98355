import Mathlib.Data.List.Basic
import Trellis.Proofs.Text.Blanks

/-! # Words of several texts

What becomes of words when texts are put one behind the other.

* `meets` says that the last word of a text and the first word of the next run together. Otherwise
  the words are those of both (`words_append`).
* `fuses` says that this happens somewhere in a row of texts; just then the words of the whole are
  not the words of its parts (`words_flatten_eq_iff`).
* `joined` puts single spaces between words. It loses none of them (`words_joined`), and a text is
  collapsed by joining its words (`collapse_eq_joined`). -/

namespace Trellis.Text

namespace Blank

variable {s s' : List Char} {c : Char}

/-! ### Two texts -/

theorem wordsFrom_blank (h : isBlank c = true) (word s : List Char) :
    wordsFrom word (c :: s) = wordsFrom word [] ++ words s := by
  simp only [wordsFrom, h, if_true]
  split <;> rfl

theorem wordsFrom_not_blank (h : isBlank c = false) (word s : List Char) :
    wordsFrom word (c :: s) = wordsFrom (word ++ [c]) s := by
  rw [wordsFrom, h, if_neg Bool.false_ne_true]

theorem wordsFrom_append_blank (h : isBlank c = true) (word s s' : List Char) :
    wordsFrom word (s ++ c :: s') = wordsFrom word s ++ words s' := by
  induction s generalizing word with
  | nil => exact wordsFrom_blank h word s'
  | cons x s ih =>
      rw [List.cons_append]
      cases hx : isBlank x with
      | true =>
          rw [wordsFrom_blank hx, wordsFrom_blank hx, words, ih [], ← words, List.append_assoc]
      | false => rw [wordsFrom_not_blank hx, wordsFrom_not_blank hx, ih]

theorem words_cons_blank (h : isBlank c = true) (s : List Char) : words (c :: s) = words s :=
  wordsFrom_blank h [] s

/-- Blanks in front change nothing. -/
theorem words_gap_append (h : IsGap s) (s' : List Char) : words (s ++ s') = words s' := by
  induction s with
  | nil => rfl
  | cons c s ih =>
      obtain ⟨hc, hs⟩ := isGap_cons.mp h
      rw [List.cons_append, words_cons_blank hc, ih hs]

/-- Whether the last word of a text and the first word of the next run together. -/
def meets (s s' : List Char) : Bool := s.getLast?.any (! isBlank ·) && s'.head?.any (! isBlank ·)

/-- Texts that do not run together keep their words. -/
theorem words_append (h : meets s s' = false) : words (s ++ s') = words s ++ words s' := by
  rw [meets, Bool.and_eq_false_iff] at h
  rcases h with h | h
  · rcases List.eq_nil_or_concat s with rfl | ⟨init, c, rfl⟩
    · rfl
    · rw [List.concat_eq_append, List.getLast?_concat, Option.any_some, Bool.not_eq_false'] at h
      have hinit : words (init ++ [c]) = words init := by
        rw [words, wordsFrom_append_blank h, words_nil, List.append_nil, words]
      rw [List.concat_eq_append, hinit, List.append_assoc, List.singleton_append]
      exact wordsFrom_append_blank h [] init s'
  · cases s' with
    | nil => rw [List.append_nil, words_nil, List.append_nil]
    | cons c s' =>
        rw [List.head?_cons, Option.any_some, Bool.not_eq_false'] at h
        rw [words_cons_blank h]
        exact wordsFrom_append_blank h [] s s'

/-- Blanks behind change nothing. -/
theorem words_append_gap (h : IsGap s') (s : List Char) : words (s ++ s') = words s := by
  rw [words_append, words_eq_nil_iff.mpr h, List.append_nil]
  cases s' with
  | nil => exact Bool.and_false _
  | cons c s' =>
      rw [meets, List.head?_cons, Option.any_some, (isGap_cons.mp h).1]
      exact Bool.and_false _

theorem words_trim (s : List Char) : words (trim s) = words s := by
  obtain ⟨gap, gap', hgap, hgap', hs⟩ := exists_between s
  conv_rhs => rw [hs, words_gap_append hgap, words_append_gap hgap']

theorem wordsFrom_end {word : List Char} (h : word ≠ []) : wordsFrom word [] = [word] := by
  rw [wordsFrom, if_neg (by rwa [List.isEmpty_iff])]

theorem length_wordsFrom {word word' : List Char} (h : word ≠ []) (h' : word' ≠ [])
    (s : List Char) : (wordsFrom word s).length = (wordsFrom word' s).length := by
  induction s generalizing word word' with
  | nil => rw [wordsFrom_end h, wordsFrom_end h']; rfl
  | cons c s ih =>
      cases hc : isBlank c with
      | true => rw [wordsFrom_blank hc, wordsFrom_blank hc, wordsFrom_end h, wordsFrom_end h']; rfl
      | false =>
          rw [wordsFrom_not_blank hc, wordsFrom_not_blank hc]
          exact ih (List.append_ne_nil_of_left_ne_nil h _) (List.append_ne_nil_of_left_ne_nil h' _)

theorem length_wordsFrom_append (h : meets s s' = true) (word : List Char) :
    (wordsFrom word (s ++ s')).length + 1 = (wordsFrom word s).length + (words s').length := by
  induction s generalizing word with
  | nil => cases h
  | cons x s ih =>
      cases s with
      | nil =>
          obtain ⟨hx, hs'⟩ := Bool.and_eq_true_iff.mp h
          obtain ⟨c, hc, hblank⟩ := (Option.any_eq_true _ _).mp hs'
          obtain ⟨rest, rfl⟩ : ∃ rest, s' = c :: rest := List.head?_eq_some_iff.mp hc
          have hx : isBlank x = false := by simpa using hx
          have hblank : isBlank c = false := by simpa using hblank
          have hne : word ++ [x] ≠ [] :=
            List.append_ne_nil_of_right_ne_nil _ (List.cons_ne_nil x [])
          rw [List.singleton_append, wordsFrom_not_blank hx, wordsFrom_not_blank hx,
            wordsFrom_end hne, words, wordsFrom_not_blank hblank, wordsFrom_not_blank hblank,
            List.nil_append, List.length_singleton, Nat.add_comm 1]
          exact congrArg (· + 1) (length_wordsFrom (List.append_ne_nil_of_left_ne_nil hne _)
            (List.cons_ne_nil c []) rest)
      | cons y s =>
          have hmeets : meets (y :: s) s' = true := by rwa [meets, List.getLast?_cons_cons] at h
          rw [List.cons_append]
          cases hx : isBlank x with
          | true =>
              have := ih hmeets []
              rw [wordsFrom_blank hx, wordsFrom_blank hx, List.length_append, List.length_append]
              rw [← words, ← words] at this
              omega
          | false =>
              rw [wordsFrom_not_blank hx, wordsFrom_not_blank hx]
              exact ih hmeets (word ++ [x])

/-- Texts that run together have a word less. -/
theorem length_words_append (h : meets s s' = true) :
    (words (s ++ s')).length + 1 = (words s).length + (words s').length :=
  length_wordsFrom_append h []

/-! ### Rows of texts -/

/-- Whether two texts of a row run together, perhaps with empty ones between them. -/
def fuses : List (List Char) → Bool
  | [] => false
  | s :: ss => meets s ss.flatten || fuses ss

theorem length_words_flatten_le (ss : List (List Char)) :
    (words ss.flatten).length ≤ (ss.flatMap words).length := by
  induction ss with
  | nil => exact Nat.le_refl _
  | cons s ss ih =>
      rw [List.flatten_cons, List.flatMap_cons, List.length_append]
      cases h : meets s ss.flatten with
      | false => rw [words_append h, List.length_append]; exact Nat.add_le_add_left ih _
      | true => have := length_words_append h; omega

/-- A row has the words of its texts just when none of them run together. -/
theorem words_flatten_eq_iff {ss : List (List Char)} :
    words ss.flatten = ss.flatMap words ↔ fuses ss = false := by
  induction ss with
  | nil => exact iff_of_true rfl rfl
  | cons s ss ih =>
      rw [List.flatten_cons, List.flatMap_cons, fuses, Bool.or_eq_false_iff, ← ih]
      cases h : meets s ss.flatten with
      | false => rw [words_append h, List.append_cancel_left_eq, eq_self, true_and]
      | true =>
          refine iff_of_false (fun heq => ?_) fun h => Bool.false_ne_true h.1.symm
          have hlength := congrArg List.length heq
          rw [List.length_append] at hlength
          have := length_words_append h
          have := length_words_flatten_le ss
          omega

/-! ### Joined words -/

/-- Words with single spaces between them. -/
def joined (ws : List (List Char)) : List Char := [' '].intercalate ws

theorem words_joined_eq (ss : List (List Char)) : words (joined ss) = ss.flatMap words := by
  induction ss with
  | nil => rfl
  | cons s ss ih =>
      cases ss with
      | nil => rw [joined, List.intercalate_singleton, List.flatMap_singleton]
      | cons s' ss =>
          rw [joined, List.intercalate_cons_cons, List.append_assoc, List.singleton_append, words,
            wordsFrom_append_blank (by rfl), List.flatMap_cons, ← ih]
          rfl

theorem wordsFrom_of_no_blank (h : ∀ c ∈ s, isBlank c = false) {word : List Char}
    (hne : word ++ s ≠ []) : wordsFrom word s = [word ++ s] := by
  induction s generalizing word with
  | nil => rw [List.append_nil] at hne ⊢; exact wordsFrom_end hne
  | cons c s ih =>
      rw [← List.singleton_append, ← List.append_assoc] at hne ⊢
      rw [List.singleton_append, wordsFrom_not_blank (h c List.mem_cons_self),
        ih (fun x hx => h x (List.mem_cons_of_mem c hx)) hne]

theorem tight_of_mem_end {word w : List Char} (hword : ∀ c ∈ word, isBlank c = false)
    (h : w ∈ wordsFrom word []) : w ≠ [] ∧ ∀ c ∈ w, isBlank c = false := by
  by_cases hne : word = []
  · rw [hne] at h
    cases h
  · rw [wordsFrom_end hne] at h
    exact List.mem_singleton.mp h ▸ ⟨hne, hword⟩

theorem tight_of_mem_wordsFrom {word w : List Char} (hword : ∀ c ∈ word, isBlank c = false)
    (h : w ∈ wordsFrom word s) : w ≠ [] ∧ ∀ c ∈ w, isBlank c = false := by
  induction s generalizing word with
  | nil => exact tight_of_mem_end hword h
  | cons c s ih =>
      cases hc : isBlank c with
      | true =>
          rw [wordsFrom_blank hc] at h
          rcases List.mem_append.mp h with h | h
          · exact tight_of_mem_end hword h
          · exact ih (List.forall_mem_nil _) h
      | false =>
          rw [wordsFrom_not_blank hc] at h
          exact ih (List.forall_mem_append.mpr ⟨hword, List.forall_mem_singleton.mpr hc⟩) h

/-- A word is its only word. -/
theorem flatMap_words (s : List Char) : (words s).flatMap words = words s := by
  have hself : ∀ w ∈ words s, words w = [w] := fun w hw => by
    obtain ⟨hne, hblank⟩ := tight_of_mem_wordsFrom (List.forall_mem_nil _) hw
    exact wordsFrom_of_no_blank hblank hne
  rw [List.flatMap_congr hself, List.flatMap_singleton']

/-- Joining keeps all words. -/
theorem words_joined (ss : List (List Char)) :
    words (joined (ss.flatMap words)) = ss.flatMap words := by
  rw [words_joined_eq, List.flatMap_assoc]
  exact List.flatMap_congr fun s _ => flatMap_words s

end Blank

open Blank

theorem collapse_eq_joined (s : String) : collapse s = String.ofList (joined (words s.toList)) := by
  rw [collapse_eq, joined, (intercalate_wordsFrom s.toList).2]

/-- Joining the words of each text of a row gives the collapsed row just when none of them run
together. -/
theorem collapse_flatten_eq_iff {ss : List (List Char)} :
    collapse (String.ofList ss.flatten) = String.ofList (joined (ss.flatMap words)) ↔
      fuses ss = false := by
  rw [collapse_eq_joined, String.toList_ofList, ← words_flatten_eq_iff, String.ofList_inj]
  refine ⟨fun h => ?_, fun h => by rw [h]⟩
  have := congrArg words h
  rwa [words_joined, words_joined_eq, flatMap_words] at this

end Trellis.Text
