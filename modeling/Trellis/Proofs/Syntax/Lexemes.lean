import Trellis.Syntax.Lexeme

/-! # Lexemes in front of a text

How far a word or a quoted text reaches does not depend on what stands behind it.

* `Lexeme.IsWord` and `Lexeme.IsQuoted` say that a text is a word or a quoted text.
* `Lexeme.word?_congr`: a word that is read at the start of a text is read before any other text that
  does not go on with it, and so is a word by itself (`isWord_of_word?`).
* `Lexeme.string?_congr`: a quoted text is read alike before any other text. -/

namespace Trellis.Syntax.Lexeme

variable {w s t : List Char} {c q : Char} {k n m : Nat}

/-- Whether a text is a word. -/
def IsWord (w : List Char) : Prop := word? w = some w.length

/-- Whether a text is a quoted text. -/
def IsQuoted (w : List Char) : Prop := string? w = some w.length

/-- Whether a text does not go on with a word before it. -/
def EndsWord (s : List Char) : Prop := ∀ c ∈ s.head?, c ≠ '\\' ∧ isWordChar c = false

instance : Decidable (IsWord w) := inferInstanceAs (Decidable (word? w = some w.length))

instance : Decidable (IsQuoted w) := inferInstanceAs (Decidable (string? w = some w.length))

/-! ### Escapes -/

/-- A run of characters that ends inside of a text ends there whatever follows. -/
theorem takeWhile_congr {p : Char → Bool} (h : ((w ++ t).takeWhile p).length < w.length)
    (s : List Char) : (w ++ s).takeWhile p = (w ++ t).takeWhile p ∧
      ∃ c r, ∀ u, (w ++ u).dropWhile p = c :: (r ++ u) := by
  induction w with
  | nil => cases h
  | cons c w ih =>
      cases hc : p c with
      | true =>
          simp only [List.cons_append, List.takeWhile_cons_of_pos hc, List.length_cons,
            Nat.add_lt_add_iff_right] at h
          obtain ⟨htake, d, r, hdrop⟩ := ih h
          simp only [List.cons_append, List.takeWhile_cons_of_pos hc, htake,
            List.dropWhile_cons_of_pos hc, true_and]
          exact ⟨d, r, hdrop⟩
      | false =>
          refine ⟨by simp [hc], c, w, fun u => by simp [hc]⟩

theorem wordEscape?_congr (h : wordEscape? (w ++ t) = some k) (hk : k ≤ w.length) (s : List Char) :
    wordEscape? (w ++ s) = some k := by
  -- the reader matches on the whole text, so what is taken off it has to be found in `w` again
  generalize hx : w ++ t = x at h
  revert h
  fun_cases wordEscape? x with
  | case1 => simp
  | case2 r n hn tail hrest =>
      intro h
      cases h
      obtain ⟨w, rfl, rfl⟩ : ∃ w', w = 'u' :: '\x7b' :: w' ∧ r = w' ++ t := by
        match w, hk with
        | a :: b :: w, _ =>
            cases hx
            exact ⟨w, rfl, rfl⟩
      have hlength : ((w ++ t).takeWhile isHex).length < w.length := by
        rw [List.length_cons, List.length_cons] at hk
        omega
      obtain ⟨htake, c, r, hdrop⟩ := takeWhile_congr hlength s
      rw [hdrop t] at hrest
      cases hrest
      rw [List.cons_append, List.cons_append, wordEscape?, htake, hdrop s]
      exact if_neg hn
  | case3 => simp
  | case4 a b c d r hbrace hhex =>
      intro h
      cases h
      obtain ⟨w, rfl⟩ : ∃ w', w = 'u' :: a :: b :: c :: d :: w' := by
        match w, hk with
        | _ :: _ :: _ :: _ :: _ :: w, _ =>
            cases hx
            exact ⟨w, rfl⟩
      rw [List.cons_append, List.cons_append, List.cons_append, List.cons_append, List.cons_append,
        wordEscape?, if_pos hhex]
      exact hbrace
  | case5 => simp
  | case6 => simp

theorem takeWhile_take_congr {p : Char → Bool}
    (h : (((w ++ t).take 2).takeWhile p).length < w.length) (s : List Char) :
    ((w ++ s).take 2).takeWhile p = ((w ++ t).take 2).takeWhile p := by
  match w with
  | [] => cases h
  | [c] =>
      cases hc : p c with
      | true => simp [hc] at h
      | false => simp [hc]
  | c :: d :: w => rfl

/-- An escape is read alike if the text goes on alike for one character. -/
theorem escape?_congr (h : escape? (w ++ t) = some k) (hk : k < w.length) (s : List Char) :
    escape? (w ++ s) = some k := by
  generalize hx : w ++ t = x at h
  revert h
  fun_cases escape? x with
  | case1 a b r hhex =>
      intro h
      cases h
      match w, hk with
      | _ :: _ :: _ :: _ :: w, _ =>
          cases hx
          exact if_pos hhex
  | case2 => simp
  | case3 => simp
  | case4 r =>
      intro h
      match w, hk with
      | c :: w, hk =>
          cases hx
          exact wordEscape?_congr (w := 'u' :: w) h (Nat.le_of_lt hk) s
  | case5 r =>
      intro h
      cases h
      match w, hk with
      | _ :: _ :: _ :: w, _ =>
          cases hx
          rfl
  | case6 c r _ hhex hu hreturn hdigit more =>
      intro h
      cases h
      obtain ⟨w, rfl, rfl⟩ : ∃ w', w = c :: w' ∧ r = w' ++ t := by
        match w, hk with
        | a :: w, _ =>
            cases hx
            exact ⟨w, rfl, rfl⟩
      rw [List.length_cons, Nat.add_comm 1, Nat.add_lt_add_iff_right] at hk
      rw [List.cons_append, escape?, if_pos hdigit, takeWhile_take_congr hk s]
      · exact fun a b tail hc _ => hhex hc
      · exact hhex
      · exact hu
      · rintro tail rfl -
        exact absurd hdigit (by decide)
  | case7 c r _ hhex hu hreturn hdigit =>
      intro h
      cases h
      obtain ⟨d, w, rfl, rfl⟩ : ∃ d w', w = c :: d :: w' ∧ r = d :: (w' ++ t) := by
        match w, hk with
        | a :: b :: w, _ =>
            cases hx
            exact ⟨b, w, rfl, rfl⟩
      rw [List.cons_append, List.cons_append, escape?, if_neg hdigit]
      · exact fun a b tail hc _ => hhex hc
      · exact hhex
      · exact hu
      · intro tail hc hd
        cases hd
        exact hreturn _ hc rfl
  | case8 => simp

/-! ### Words -/

theorem le_of_wordEscape? (h : wordEscape? s = some k) : k ≤ s.length := by
  revert h
  fun_cases wordEscape? s with
  | case2 r n hn tail hrest =>
      intro h
      cases h
      have hlength := congrArg List.length (List.takeWhile_append_dropWhile (p := isHex) (l := r))
      rw [hrest, List.length_append, List.length_cons] at hlength
      rw [List.length_cons, List.length_cons]
      omega
  | case4 =>
      intro h
      cases h
      simp
  | case1 | case3 | case5 | case6 => simp

theorem wordRest_le (n : Nat) (s : List Char) : wordRest n s ≤ s.length := by
  fun_induction wordRest n s with
  | case3 n s k hescape ih =>
      have hk := le_of_wordEscape? hescape
      rw [List.length_drop] at ih
      rw [List.length_cons]
      omega
  | case5 n c s hback hchar ih =>
      rw [List.length_cons]
      omega
  | case1 | case2 | case4 | case6 => exact Nat.zero_le _

/-- The rest of a word is read alike before anything that does not go on with it. -/
theorem wordRest_congr (h : wordRest n (w ++ t) = w.length) (hm : w.length ≤ m)
    (hs : EndsWord s) : wordRest m (w ++ s) = w.length := by
  -- on the bound of the new reading, which goes down with every character of `w`
  induction m generalizing n w with
  | zero =>
      rw [List.length_eq_zero_iff.mp (Nat.le_zero.mp hm)]
      rfl
  | succ m ih =>
      cases w with
      | nil =>
          cases s with
          | nil => rfl
          | cons c s =>
              obtain ⟨hback, hchar⟩ := hs c rfl
              rw [List.nil_append, wordRest, if_neg hback, hchar, if_neg Bool.false_ne_true]
              rfl
      | cons c w =>
          cases n with
          | zero => cases h
          | succ n =>
              rw [List.cons_append, wordRest] at h ⊢
              rw [List.length_cons] at h hm ⊢
              split at h
              · next hback =>
                rw [if_pos hback]
                split at h
                · next k hescape =>
                  have hk : k ≤ w.length := by omega
                  rw [List.drop_append_of_le_length hk] at h
                  rw [wordEscape?_congr hescape hk s]
                  dsimp only
                  rw [List.drop_append_of_le_length hk,
                    ih (n := n) (by rw [List.length_drop]; omega) (by rw [List.length_drop]; omega),
                    List.length_drop]
                  omega
                · cases h
              · next hback =>
                rw [if_neg hback]
                split at h
                · next hchar =>
                  rw [if_pos hchar, ih (n := n) (by omega) (by omega)]
                  omega
                · cases h

/-- A word begins with a character that may start one, and goes on as words do. -/
theorem word?_cons : word? (c :: s) = some n ↔
    (if c = '\\' then (wordEscape? s).isSome else isWordStart c) = true ∧
      wordRest (s.length + 1) (c :: s) = n := by
  rw [word?, wordRest]
  split
  · cases wordEscape? s <;> simp
  · cases hstart : isWordStart c with
    | false => simp
    | true =>
        have hchar : isWordChar c = true := (Bool.and_eq_true_iff.mp hstart).1
        simp [hchar]

/-- A word is no longer than the text it stands in. -/
theorem le_of_word? (h : word? s = some n) : n ≤ s.length := by
  cases s with
  | nil => cases h
  | cons c s =>
      rw [← (word?_cons.mp h).2]
      exact wordRest_le _ _

theorem word?_pos (h : word? s = some n) : 0 < n := by
  cases s with
  | nil => cases h
  | cons c s =>
      rw [word?] at h
      split at h
      · obtain ⟨k, -, rfl⟩ := Option.map_eq_some_iff.mp h
        omega
      · split at h
        · cases h
          omega
        · cases h

/-- A word is read alike before anything that does not go on with it. -/
theorem word?_congr (h : word? (w ++ t) = some w.length) (hs : EndsWord s) :
    word? (w ++ s) = some w.length := by
  cases w with
  | nil =>
      cases t with
      | nil => cases h
      | cons c t =>
          rw [List.nil_append, word?] at h
          split at h
          · obtain ⟨k, -, hlength⟩ := Option.map_eq_some_iff.mp h
            exact absurd hlength (by rw [List.length_nil]; omega)
          · split at h
            · exact absurd (Option.some.inj h) (by rw [List.length_nil]; omega)
            · cases h
  | cons c w =>
      rw [List.cons_append, word?_cons] at h ⊢
      refine ⟨?_, wordRest_congr (w := c :: w) h.2 (by simp) hs⟩
      split
      · next hback =>
        rw [if_pos hback] at h
        obtain ⟨k, hescape⟩ := Option.isSome_iff_exists.mp h.1
        have hlength := h.2
        rw [wordRest, if_pos hback, hescape, List.length_cons] at hlength
        rw [wordEscape?_congr hescape (by dsimp only at hlength; omega) s]
        rfl
      · next hback =>
        rw [if_neg hback] at h
        exact h.1

/-- What is read as a word is a word. -/
theorem isWord_of_word? (h : word? (w ++ t) = some w.length) : IsWord w := by
  have hnil : word? (w ++ []) = some w.length := word?_congr h fun c hc => by cases hc
  rwa [List.append_nil] at hnil

theorem IsWord.word?_append (h : IsWord w) (hs : EndsWord s) : word? (w ++ s) = some w.length := by
  refine word?_congr (t := []) ?_ hs
  rwa [List.append_nil]

theorem IsWord.ne_nil (h : IsWord w) : w ≠ [] := by
  rintro rfl
  cases h

/-- A word begins with no blank. -/
theorem IsWord.head (h : IsWord w) : ∀ c ∈ w.head?, isSpace c = false := by
  rintro c hc
  obtain ⟨w, rfl⟩ := List.head?_eq_some_iff.mp hc
  have hstart := (word?_cons.mp h).1
  split at hstart
  · next hback =>
    rw [hback]
    decide
  · have hchar := (Bool.and_eq_true_iff.mp hstart).1
    have hspace := (Bool.and_eq_true_iff.mp (Bool.and_eq_true_iff.mp hchar).1).2
    rwa [Bool.not_eq_true'] at hspace

/-- No line ends in an escape of a word. -/
theorem notMem_take_wordEscape? (h : wordEscape? s = some k) : '\n' ∉ s.take k := by
  have hhex {c : Char} (hc : isHex c = true) : c ≠ '\n' := by
    rintro rfl
    exact absurd hc (by decide)
  revert h
  fun_cases wordEscape? s with
  | case2 r n hn tail hrest =>
      intro h
      cases h
      have hsplit := List.takeWhile_append_dropWhile (p := isHex) (l := r)
      rw [hrest] at hsplit
      have htake : r.take (n + 1) = r.takeWhile isHex ++ ['\x7d'] := by
        have hlength : n + 1 = (r.takeWhile isHex ++ ['\x7d']).length := by simp [n]
        have hleft : (r.takeWhile isHex ++ ['\x7d'] ++ tail).take (n + 1) =
            r.takeWhile isHex ++ ['\x7d'] := List.take_left' hlength.symm
        rwa [List.append_assoc, List.singleton_append, hsplit] at hleft
      rw [List.take_succ_cons, List.take_succ_cons, htake]
      simp only [List.mem_cons, List.mem_append, List.not_mem_nil, or_false, not_or]
      refine ⟨by decide, by decide, fun hmem => ?_, by decide⟩
      exact hhex (List.all_eq_true.mp List.all_takeWhile _ hmem) rfl
  | case4 a b c d tail hhexes hall =>
      intro h
      cases h
      simp only [List.all_cons, List.all_nil, Bool.and_true, Bool.and_eq_true] at hall
      simp [(hhex hall.1).symm, (hhex hall.2.1).symm, (hhex hall.2.2.1).symm, (hhex hall.2.2.2).symm]
  | case1 | case3 | case5 | case6 => simp

theorem notMem_take_wordRest (n : Nat) (s : List Char) : '\n' ∉ s.take (wordRest n s) := by
  fun_induction wordRest n s with
  | case3 n s k hescape ih =>
      rw [Nat.add_assoc, Nat.add_comm 1, List.take_succ_cons, List.take_add, List.mem_cons,
        List.mem_append, not_or, not_or]
      exact ⟨by decide, notMem_take_wordEscape? hescape, ih⟩
  | case5 n c s hback hchar ih =>
      rw [Nat.add_comm, List.take_succ_cons, List.mem_cons, not_or]
      refine ⟨?_, ih⟩
      rintro rfl
      exact absurd hchar (by decide)
  | case1 | case2 | case4 | case6 => simp

/-- No line ends in a word. -/
theorem IsWord.notMem (h : IsWord w) : '\n' ∉ w := by
  cases w with
  | nil => exact List.not_mem_nil
  | cons c w =>
      have hrest := notMem_take_wordRest (w.length + 1) (c :: w)
      rwa [(word?_cons.mp h).2, List.take_length] at hrest

/-! ### Quoted texts -/

theorem le_of_escape? (h : escape? s = some k) : k ≤ s.length := by
  revert h
  fun_cases escape? s with
  | case4 r => exact le_of_wordEscape?
  | case6 c r hhex hx hu hreturn hdigit more =>
      intro h
      cases h
      have hmore : more.length ≤ r.length :=
        Nat.le_trans (List.takeWhile_prefix _).length_le (List.take_prefix 2 r).length_le
      rw [List.length_cons]
      omega
  | case1 | case2 | case3 | case5 | case7 | case8 =>
      intro h
      cases h <;> simp

theorem le_of_quotedRest (h : quotedRest q n s = some k) : k ≤ s.length := by
  induction n generalizing s k with
  | zero => cases h
  | succ n ih =>
      cases s with
      | nil => cases h
      | cons c s =>
          rw [quotedRest] at h
          rw [List.length_cons]
          split at h
          · cases h
            omega
          · split at h
            · split at h
              · next i hescape =>
                obtain ⟨r, hrest, rfl⟩ := Option.map_eq_some_iff.mp h
                have hi := le_of_escape? hescape
                have hr := ih hrest
                rw [List.length_drop] at hr
                omega
              · cases h
            · split at h
              · cases h
              · obtain ⟨r, hrest, rfl⟩ := Option.map_eq_some_iff.mp h
                have hr := ih hrest
                omega

/-- A quoted text is no longer than the text it stands in. -/
theorem le_of_string? (h : string? s = some n) : n ≤ s.length := by
  cases s with
  | nil => cases h
  | cons c s =>
      rw [string?] at h
      split at h
      · obtain ⟨r, hrest, rfl⟩ := Option.map_eq_some_iff.mp h
        have hr := le_of_quotedRest hrest
        rw [List.length_cons]
        omega
      · cases h

theorem quotedRest_pos (h : quotedRest q n s = some k) : 0 < k := by
  revert h
  fun_cases quotedRest q n s <;> simp <;> omega

/-- The rest of a quoted text is read alike before anything. -/
theorem quotedRest_congr (h : quotedRest q n (w ++ t) = some w.length) (hm : w.length ≤ m)
    (s : List Char) : quotedRest q m (w ++ s) = some w.length := by
  induction m generalizing n w with
  | zero =>
      rw [List.length_eq_zero_iff.mp (Nat.le_zero.mp hm)] at h
      exact absurd (quotedRest_pos h) (Nat.lt_irrefl 0)
  | succ m ih =>
      cases w with
      | nil => exact absurd (quotedRest_pos h) (Nat.lt_irrefl 0)
      | cons c w =>
          cases n with
          | zero => cases h
          | succ n =>
              rw [List.cons_append, quotedRest] at h ⊢
              rw [List.length_cons] at h hm ⊢
              split at h
              · next hquote => rw [if_pos hquote, h]
              · next hquote =>
                rw [if_neg hquote]
                split at h
                · next hback =>
                  rw [if_pos hback]
                  split at h
                  · next k hescape =>
                    obtain ⟨r, hrest, hlength⟩ := Option.map_eq_some_iff.mp h
                    have hr := quotedRest_pos hrest
                    have hk : k < w.length := by omega
                    rw [List.drop_append_of_le_length (Nat.le_of_lt hk)] at hrest
                    have hr' : r = (w.drop k).length := by
                      rw [List.length_drop]
                      omega
                    rw [escape?_congr hescape hk s]
                    dsimp only
                    rw [List.drop_append_of_le_length (Nat.le_of_lt hk),
                      ih (hr' ▸ hrest) (by rw [List.length_drop]; omega), Option.map_some, ← hr',
                      hlength]
                  · cases h
                · next hback =>
                  rw [if_neg hback]
                  split at h
                  · cases h
                  · next hbreak =>
                    obtain ⟨r, hrest, hlength⟩ := Option.map_eq_some_iff.mp h
                    have hr : r = w.length := by omega
                    rw [if_neg hbreak, ih (hr ▸ hrest) (by omega), Option.map_some, Nat.add_comm]

/-- A quoted text is read alike before anything. -/
theorem string?_congr (h : string? (w ++ t) = some w.length) (s : List Char) :
    string? (w ++ s) = some w.length := by
  cases w with
  | nil =>
      cases t with
      | nil => cases h
      | cons c t =>
          rw [List.nil_append, string?] at h
          split at h
          · obtain ⟨r, -, hlength⟩ := Option.map_eq_some_iff.mp h
            exact absurd hlength (by rw [List.length_nil]; omega)
          · cases h
  | cons c w =>
      rw [List.cons_append, string?] at h ⊢
      split at h
      · next hquote =>
        obtain ⟨r, hrest, hlength⟩ := Option.map_eq_some_iff.mp h
        rw [List.length_cons] at hlength
        have hr : r = w.length := by omega
        rw [if_pos hquote, quotedRest_congr (hr ▸ hrest) (by simp) s, Option.map_some,
          List.length_cons, Nat.add_comm]
      · cases h

/-- What is read as a quoted text is one. -/
theorem isQuoted_of_string? (h : string? (w ++ t) = some w.length) : IsQuoted w := by
  have hnil := string?_congr h []
  rwa [List.append_nil] at hnil

theorem IsQuoted.string?_append (h : IsQuoted w) (s : List Char) :
    string? (w ++ s) = some w.length := by
  refine string?_congr (t := []) ?_ s
  rwa [List.append_nil]

/-- A quoted text begins with a quote. -/
theorem head_of_string? (h : string? s = some n) : ∀ c ∈ s.head?, c = '"' ∨ c = '\'' := by
  rintro c hc
  obtain ⟨s, rfl⟩ := List.head?_eq_some_iff.mp hc
  rw [string?] at h
  split at h
  · next hquote => simpa using hquote
  · cases h

/-- A quoted text is longer than its quotes, and no word. -/
theorem word?_of_string? (h : string? s = some n) : word? s = none ∧ 2 ≤ n := by
  cases s with
  | nil => cases h
  | cons c s =>
      have hquote := head_of_string? h c rfl
      rw [string?, if_pos (by simpa using hquote)] at h
      obtain ⟨k, hrest, rfl⟩ := Option.map_eq_some_iff.mp h
      refine ⟨?_, by have := quotedRest_pos hrest; omega⟩
      rcases hquote with rfl | rfl <;> rfl

/-- Whether a text is a name of an export: a word or a quoted text. -/
def IsExportName (s : List Char) : Prop := IsWord s ∨ IsQuoted s

end Trellis.Syntax.Lexeme
