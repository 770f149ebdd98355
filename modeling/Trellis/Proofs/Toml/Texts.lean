import Mathlib.Data.List.Basic
import Trellis.Toml.Read
import Trellis.Toml.Write

/-! # Texts as values

A text with its quotes is read as the same text, whichever quotes it has.

* `Toml.readEscape_escapeChar`: what an escape stands for. `Toml.readBasic_escape`: a text in double
  quotes on one line.
* `Toml.quotes_or`: where three quotes end a text of several lines, as no more than two stand in a row
  before them. `Toml.readBasicLines_escape` and `Toml.readPlainLines_append` read such texts.
* `Toml.readText_quote`: a text is read with the quotes that are chosen for it. -/

namespace Trellis.Toml

variable {s t u rest : List Char} {c q : Char} {lines : Bool} {n allowed run : Nat}

/-! ### Escapes -/

theorem charOf?_toNat (c : Char) : charOf? c.toNat = some c := by
  have hvalid : c.toNat.isValidChar := c.valid
  have hchar := Char.ofNat_toNat c
  rw [Char.ofNat, dif_pos hvalid] at hchar
  rw [charOf?, dif_pos hvalid, hchar]

theorem hexValue?_digit {d : Nat} (h : d < 16) : hexValue? (Nat.digitChar d).toUpper = some d := by
  revert d
  decide

/-- Four hexadecimal digits denote the number that they are written for. -/
theorem readHex_hex4 (h : n < 65536) (t : List Char) : readHex 4 0 (hex4 n ++ t) = some (n, t) := by
  have hdigit (k : Nat) : hexValue? (Nat.digitChar (k % 16)).toUpper = some (k % 16) :=
    hexValue?_digit (Nat.mod_lt _ (by decide))
  simp only [hex4, List.map_cons, List.map_nil, List.cons_append, List.nil_append, readHex, hdigit,
    Option.bind_some, Option.some.injEq, Prod.mk.injEq, and_true]
  omega

/-- Whether a character stands in a text between double quotes as it is. -/
structure IsRaw (lines : Bool) (c : Char) : Prop where
  /-- It is no control character but a line feed in a text of several lines. -/
  plain : isPlain c = true ∨ lines = true ∧ c = '\n'
  /-- It starts no escape. -/
  backslash : c ≠ '\\'
  /-- It is no carriage return. -/
  carriage : c ≠ '\r'

/-- A character between double quotes is written as it is, or as an escape that is read as it. -/
theorem escapeChar_cases (lines : Bool) (c : Char) : escapeChar lines c = [c] ∧ IsRaw lines c ∨
    ∃ e more, escapeChar lines c = '\\' :: e :: more ∧ e ∉ [' ', '\t', '\n', '\r'] ∧
      ∀ t, readEscape (e :: (more ++ t)) = some (c, t) := by
  unfold escapeChar
  split
  · next h =>
    have hc : c = Char.ofNat 8 := by rw [← h, Char.ofNat_toNat]
    exact .inr ⟨'b', [], rfl, by decide, fun t => by rw [hc]; rfl⟩
  split
  · next h => exact .inr ⟨'t', [], rfl, by decide, fun t => by rw [h]; rfl⟩
  split
  · next h =>
    cases lines with
    | true => exact .inl ⟨by rw [h]; rfl, .inr ⟨rfl, h⟩, by rw [h]; decide, by rw [h]; decide⟩
    | false => exact .inr ⟨'n', [], rfl, by decide, fun t => by rw [h]; rfl⟩
  split
  · next h =>
    have hc : c = Char.ofNat 12 := by rw [← h, Char.ofNat_toNat]
    exact .inr ⟨'f', [], rfl, by decide, fun t => by rw [hc]; rfl⟩
  split
  · next h => exact .inr ⟨'r', [], rfl, by decide, fun t => by rw [h]; rfl⟩
  split
  · next h => exact .inr ⟨'\\', [], rfl, by decide, fun t => by rw [h]; rfl⟩
  split
  · next h =>
    refine .inr ⟨'u', hex4 c.toNat, rfl, by decide, fun t => ?_⟩
    have hsmall : c.toNat < 65536 := by
      rw [Bool.or_eq_true, decide_eq_true_eq, decide_eq_true_eq] at h
      omega
    rw [readEscape, readHex_hex4 hsmall, Option.bind_some]
    dsimp only
    rw [charOf?_toNat]
    rfl
  · next hcarriage hbackslash hcontrol =>
    refine .inl ⟨rfl, .inl ?_, hbackslash, hcarriage⟩
    rw [Bool.or_eq_true, decide_eq_true_eq, decide_eq_true_eq, not_or] at hcontrol
    rw [isPlain, isCommentChar, Bool.or_eq_true, Bool.and_eq_true, decide_eq_true_eq,
      decide_eq_true_eq, decide_eq_true_eq]
    exact .inr ⟨Nat.le_of_not_lt hcontrol.1, hcontrol.2⟩

/-- What is written for a character that is no quote does not begin with one. -/
theorem head?_escapeChar (lines : Bool) (h : c ≠ '"') : ∃ d more, escapeChar lines c = d :: more ∧ d ≠ '"' := by
  rcases escapeChar_cases lines c with ⟨hc, -⟩ | ⟨e, more, hc, -⟩
  · exact ⟨c, [], hc, h⟩
  · exact ⟨'\\', e :: more, hc, by decide⟩

/-! ### Double quotes on one line -/

/-- A text between double quotes is read up to the closing quote. -/
theorem readBasic_escape (hn : s.length < n) (run : Nat) (rest : List Char) :
    readBasic n (escape false 0 run s ++ '"' :: rest) = some (s, rest) := by
  induction s generalizing n run with
  | nil =>
      obtain ⟨n, rfl⟩ := Nat.exists_eq_succ_of_ne_zero (Nat.ne_zero_of_lt hn)
      rfl
  | cons c s ih =>
      obtain ⟨n, rfl⟩ := Nat.exists_eq_succ_of_ne_zero (Nat.ne_zero_of_lt hn)
      rw [List.length_cons] at hn
      have hs := ih (Nat.lt_of_succ_lt_succ hn) 0
      rw [escape]
      by_cases hquote : c = '"'
      · rw [if_pos hquote, if_pos (Nat.zero_lt_succ run), hquote, List.cons_append, List.cons_append,
          readBasic, readEscape, Option.bind_some]
        dsimp only
        rw [hs]
        rfl
      · rw [if_neg hquote, List.append_assoc]
        rcases escapeChar_cases false c with ⟨hc, hraw⟩ | ⟨e, more, hc, -, hread⟩
        · have hplain : isPlain c = true := hraw.plain.resolve_right (by rintro ⟨h, -⟩; cases h)
          rw [hc, List.singleton_append, readBasic.eq_4 _ _ _ hquote hraw.backslash, if_pos hplain, hs]
          rfl
        · rw [hc, List.cons_append, List.cons_append, readBasic, hread, Option.bind_some]
          dsimp only
          rw [hs]
          rfl

/-- A text between double quotes begins with no quote. -/
theorem head?_escape (run : Nat) (s : List Char) : (escape false 0 run s).head? ≠ some '"' := by
  cases s with
  | nil => simp [escape]
  | cons c s =>
      rw [escape]
      by_cases hquote : c = '"'
      · rw [if_pos hquote, if_pos (Nat.zero_lt_succ run)]
        simp
      · obtain ⟨d, more, hc, hd⟩ := head?_escapeChar false hquote
        rw [if_neg hquote, hc]
        simpa using hd

/-! ### Closing quotes -/

/-- Up to two quotes before the closing ones belong to the text. -/
theorem closing?_replicate {j : Nat} (hj : j ≤ 2) (hrest : rest.head? ≠ some q) :
    closing? q (List.replicate j q ++ q :: q :: q :: rest) = some (List.replicate j q, rest) := by
  have hall : List.replicate j q ++ q :: q :: q :: rest = List.replicate (j + 3) q ++ rest := by
    rw [List.replicate_add, List.append_assoc]
    rfl
  have hquotes : (List.replicate (j + 3) q ++ rest).takeWhile (· = q) = List.replicate (j + 3) q := by
    rw [List.takeWhile_append_of_pos (by simp)]
    cases rest with
    | nil => simp
    | cons d rest =>
        have hd : d ≠ q := by simpa using hrest
        simp [hd]
  rw [hall, closing?, hquotes]
  simp only [List.length_replicate]
  rw [if_neg (by omega), Nat.add_sub_cancel, Nat.min_eq_left hj, List.drop_left' (by simp)]

theorem closing?_eq_none (h : (s.takeWhile (· = q)).length ≤ 2) : closing? q s = none := by
  rw [closing?, if_pos (by omega)]

theorem le_longestRun (q : Char) (best run : Nat) (s : List Char) : best ≤ longestRun q best run s := by
  induction s generalizing best run with
  | nil => exact Nat.le_refl _
  | cons c s ih =>
      rw [longestRun]
      split
      · exact Nat.le_trans (Nat.le_max_left _ _) (ih _ _)
      · exact ih _ _

/-- Where no more than two quotes stand in a row, either these are the last of the text, or no three quotes
follow. -/
theorem quotes_or {best : Nat} (hrun : run ≤ 2) (h : longestRun q best run s ≤ 2) (t : List Char) :
    (∃ j, run + j ≤ 2 ∧ s = List.replicate j q) ∨
      run + ((s ++ t).takeWhile (· = q)).length ≤ 2 := by
  induction s generalizing best run with
  | nil => exact .inl ⟨0, hrun, rfl⟩
  | cons c s ih =>
      rw [longestRun] at h
      by_cases hc : c = q
      · rw [if_pos hc] at h
        have hnext : run + 1 ≤ 2 := Nat.le_trans (Nat.le_max_right best _) (Nat.le_trans (le_longestRun ..) h)
        rw [hc, List.cons_append, List.takeWhile_cons, if_pos (decide_eq_true rfl), List.length_cons]
        rcases ih hnext h with ⟨j, hj, hs⟩ | hs
        · exact .inl ⟨j + 1, by omega, by rw [hs, List.replicate_succ]⟩
        · exact .inr (by omega)
      · rw [List.cons_append, List.takeWhile_cons, if_neg (by simpa using hc)]
        exact .inr hrun

/-- The same for a text in which a third quote has an escape. -/
theorem escape_quotes_or (hrun : run ≤ 2) (s t : List Char) :
    (∃ j, run + j ≤ 2 ∧ s = List.replicate j '"' ∧ escape true 2 run s = List.replicate j '"') ∨
      run + ((escape true 2 run s ++ t).takeWhile (· = '"')).length ≤ 2 := by
  induction s generalizing run with
  | nil => exact .inl ⟨0, hrun, rfl, rfl⟩
  | cons c s ih =>
      rw [escape]
      by_cases hc : c = '"'
      · rw [if_pos hc]
        split
        · exact .inr hrun
        · next hnext =>
          rw [List.cons_append, List.takeWhile_cons, if_pos (decide_eq_true rfl), List.length_cons]
          rcases ih (Nat.le_of_not_lt hnext) with ⟨j, hj, hs, hescape⟩ | hs
          · refine .inl ⟨j + 1, by omega, ?_, ?_⟩
            · rw [hc, hs, List.replicate_succ]
            · rw [hescape, List.replicate_succ]
          · exact .inr (by omega)
      · obtain ⟨d, more, hd, hne⟩ := head?_escapeChar true hc
        rw [if_neg hc, hd, List.cons_append, List.cons_append, List.takeWhile_cons,
          if_neg (by simpa using hne)]
        exact .inr hrun

/-! ### Texts of several lines -/

theorem newline?_eq_none (hfeed : c ≠ '\n') (hcarriage : c ≠ '\r') (t : List Char) :
    newline? (c :: t) = none := by
  rw [newline?.eq_def]
  split
  · next heq => exact absurd (List.cons.inj heq).1 hfeed
  · next heq => exact absurd (List.cons.inj heq).1 hcarriage
  · rfl

theorem carriage_of_isPlain (h : isPlain c = true) : c ≠ '\r' := by
  rintro rfl
  exact absurd h (by decide)

theorem continuation?_eq_none (h : c ∉ [' ', '\t', '\n', '\r']) (t : List Char) :
    continuation? (c :: t) = none := by
  simp only [List.mem_cons, List.not_mem_nil, or_false, not_or] at h
  obtain ⟨hspace, htab, hfeed, hcarriage⟩ := h
  have hskip : skipSpaces (c :: t) = c :: t := by
    rw [skipSpaces, List.dropWhile_cons_of_neg]
    simp [isSpace, hspace, htab]
  rw [continuation?, hskip, newline?_eq_none hfeed hcarriage]
  rfl

/-- A text of several lines between single quotes is read up to the closing quotes. -/
theorem readPlainLines_append {best : Nat} (hs : ∀ c ∈ s, isPlain c = true ∨ c = '\n')
    (hrun : run ≤ 2) (h : longestRun '\'' best run s ≤ 2) (hn : s.length < n)
    (hrest : rest.head? ≠ some '\'') :
    readPlainLines n (s ++ '\'' :: '\'' :: '\'' :: rest) = some (s, rest) := by
  induction s generalizing n best run with
  | nil =>
      obtain ⟨n, rfl⟩ := Nat.exists_eq_succ_of_ne_zero (Nat.ne_zero_of_lt hn)
      have hclosing := closing?_replicate (Nat.zero_le 2) hrest
      rw [List.replicate_zero, List.nil_append] at hclosing
      rw [List.nil_append, readPlainLines, hclosing]
  | cons c s ih =>
      obtain ⟨n, rfl⟩ := Nat.exists_eq_succ_of_ne_zero (Nat.ne_zero_of_lt hn)
      rw [List.length_cons] at hn
      have hquotes := quotes_or hrun h ('\'' :: '\'' :: '\'' :: rest)
      obtain ⟨hc, htail⟩ := List.forall_mem_cons.mp hs
      rw [longestRun] at h
      by_cases hquote : c = '\''
      · subst hquote
        rw [if_pos rfl] at h
        rcases hquotes with ⟨j, hj, heq⟩ | hshort
        · rw [List.cons_append, readPlainLines, ← List.cons_append, heq,
            closing?_replicate (by omega) hrest]
        · have hnext : run + 1 ≤ 2 := Nat.le_trans (Nat.le_max_right best _) (Nat.le_trans (le_longestRun ..) h)
          rw [List.cons_append] at hshort
          rw [List.cons_append, readPlainLines, closing?_eq_none (by omega)]
          dsimp only
          rw [ih htail hnext h (Nat.lt_of_succ_lt_succ hn)]
          rfl
      · rw [if_neg hquote] at h
        have hnext := ih htail (Nat.zero_le 2) h (Nat.lt_of_succ_lt_succ hn)
        rw [List.cons_append, readPlainLines.eq_4 _ _ _ hquote]
        by_cases hfeed : c = '\n'
        · rw [hfeed, newline?]
          dsimp only
          rw [hnext]
          rfl
        · have hplain := hc.resolve_right hfeed
          rw [newline?_eq_none hfeed (carriage_of_isPlain hplain)]
          dsimp only
          rw [if_pos hplain, hnext]
          rfl

/-- A text of several lines between double quotes is read up to the closing quotes. -/
theorem readBasicLines_escape (hrun : run ≤ 2) (hn : s.length < n) (hrest : rest.head? ≠ some '"') :
    readBasicLines n (escape true 2 run s ++ '"' :: '"' :: '"' :: rest) = some (s, rest) := by
  induction s generalizing n run with
  | nil =>
      obtain ⟨n, rfl⟩ := Nat.exists_eq_succ_of_ne_zero (Nat.ne_zero_of_lt hn)
      have hclosing := closing?_replicate (Nat.zero_le 2) hrest
      rw [List.replicate_zero, List.nil_append] at hclosing
      rw [escape, List.nil_append, readBasicLines, hclosing]
  | cons c s ih =>
      obtain ⟨n, rfl⟩ := Nat.exists_eq_succ_of_ne_zero (Nat.ne_zero_of_lt hn)
      rw [List.length_cons] at hn
      have hquotes := escape_quotes_or hrun (c :: s) ('"' :: '"' :: '"' :: rest)
      rw [escape] at hquotes ⊢
      by_cases hquote : c = '"'
      · subst hquote
        rw [if_pos rfl] at hquotes ⊢
        split
        · rw [List.cons_append, List.cons_append, readBasicLines,
            continuation?_eq_none (by decide), readEscape]
          dsimp only
          rw [Option.bind_some]
          dsimp only
          rw [ih (Nat.zero_le 2) (Nat.lt_of_succ_lt_succ hn)]
          rfl
        · next hnext =>
          rw [if_neg hnext] at hquotes
          rcases hquotes with ⟨j, hj, heq, hescape⟩ | hshort
          · rw [List.cons_append, readBasicLines, ← List.cons_append, hescape,
              closing?_replicate (by omega) hrest, heq]
          · rw [List.cons_append] at hshort
            rw [List.cons_append, readBasicLines, closing?_eq_none (by omega)]
            dsimp only
            rw [ih (Nat.le_of_not_lt hnext) (Nat.lt_of_succ_lt_succ hn)]
            rfl
      · have hnext := ih (Nat.zero_le 2) (Nat.lt_of_succ_lt_succ hn)
        rw [if_neg hquote, List.append_assoc]
        rcases escapeChar_cases true c with ⟨hc, hraw⟩ | ⟨e, more, hc, he, hread⟩
        · rw [hc, List.singleton_append, readBasicLines.eq_5 _ _ _ hquote hraw.backslash]
          by_cases hfeed : c = '\n'
          · rw [hfeed, newline?]
            dsimp only
            rw [hnext]
            rfl
          · have hplain := hraw.plain.resolve_right fun h => hfeed h.2
            rw [newline?_eq_none hfeed hraw.carriage]
            dsimp only
            rw [if_pos hplain, hnext]
            rfl
        · rw [hc, List.cons_append, List.cons_append, readBasicLines, continuation?_eq_none he, hread]
          dsimp only
          rw [Option.bind_some]
          dsimp only
          rw [hnext]
          rfl

/-! ### The chosen quotes -/

theorem isPlain_of_hasControl (h : hasControl s = false) (hc : c ∈ s) : isPlain c = true ∨ c = '\n' := by
  rw [hasControl, List.any_eq_false] at h
  have hno := h c hc
  simp only [Bool.and_eq_true, Bool.or_eq_true, decide_eq_true_eq] at hno
  simp only [isPlain, isCommentChar, Bool.or_eq_true, Bool.and_eq_true, decide_eq_true_eq]
  by_cases hfeed : c = '\n'
  · exact .inr hfeed
  · by_cases htab : c = '\t'
    · exact .inl (.inl htab)
    · have hcontrol : ¬ (c.toNat < 0x20 ∨ c.toNat = 0x7F) := fun h => hno ⟨⟨htab, hfeed⟩, h⟩
      exact .inl (.inr ⟨by omega, by omega⟩)

theorem notMem_of_longestRun {best : Nat} (h : longestRun q best run s = 0) : q ∉ s := by
  induction s generalizing best run with
  | nil => exact List.not_mem_nil
  | cons c s ih =>
      rw [longestRun] at h
      split at h
      · have := le_longestRun q (max best (run + 1)) (run + 1) s
        omega
      · next hc =>
        rw [List.mem_cons, not_or]
        exact ⟨Ne.symm hc, ih h⟩

/-- Single quotes are chosen for a text on one line that has no such quote. -/
theorem of_eq_plain (h : Quoting.of s = .plain) : ∀ c ∈ s, isPlain c = true ∧ c ≠ '\'' := by
  have hcond : hasControl s = false ∧ longestRun '\'' 0 0 s = 0 ∧ '\n' ∉ s := by
    rw [Quoting.of] at h
    split at h
    · cases h
    split at h
    · next hcond => simpa [and_assoc] using hcond
    split at h
    · cases h
    split at h
    · cases h
    · split at h <;> cases h
  obtain ⟨hcontrol, hsingles, hbreaks⟩ := hcond
  intro c hc
  constructor
  · exact (isPlain_of_hasControl hcontrol hc).resolve_right fun heq => hbreaks (heq ▸ hc)
  · exact fun heq => notMem_of_longestRun hsingles (heq ▸ hc)

/-- Three single quotes are chosen for a text in which no three stand in a row. -/
theorem of_eq_plainLines (h : Quoting.of s = .plainLines) :
    (∀ c ∈ s, isPlain c = true ∨ c = '\n') ∧ longestRun '\'' 0 0 s ≤ 2 := by
  have hcond : hasControl s = false ∧ longestRun '\'' 0 0 s ≤ 2 := by
    rw [Quoting.of] at h
    split at h
    · cases h
    split at h
    · cases h
    split at h
    · cases h
    split at h
    · next hcond => simpa using hcond
    · split at h <;> cases h
  exact ⟨fun c hc => isPlain_of_hasControl hcond.1 hc, hcond.2⟩

/-- An escape is never shorter than what it is written for. -/
theorem length_le_escape (lines : Bool) (allowed run : Nat) (s : List Char) :
    s.length ≤ (escape lines allowed run s).length := by
  induction s generalizing run with
  | nil => exact Nat.zero_le _
  | cons c s ih =>
      rw [escape, List.length_cons]
      split
      · split
        · exact Nat.le_succ_of_le (Nat.succ_le_succ (ih 0))
        · exact Nat.succ_le_succ (ih _)
      · have hpos : 0 < (escapeChar lines c).length := by
          rcases escapeChar_cases lines c with ⟨hc, -⟩ | ⟨e, more, hc, -⟩ <;> rw [hc] <;> simp
        have := ih 0
        rw [List.length_append]
        omega

/-- A line break is put after the opening quotes of a text with line breaks, and skipped. -/
theorem skipFirstBreak_first (hu : ∀ d ∈ u.head?, d = '\n' → s.contains '\n' = true)
    (hcarriage : ∀ d ∈ u.head?, d ≠ '\r') :
    skipFirstBreak ((if s.contains '\n' then ['\n'] else []) ++ u) = u := by
  split
  · rfl
  · next hbreaks =>
    rw [List.nil_append, skipFirstBreak]
    cases u with
    | nil => rfl
    | cons d u =>
        rw [newline?_eq_none (fun h => hbreaks (hu d rfl h)) (hcarriage d rfl)]
        rfl

/-- A text between double quotes does not begin like one of several lines. -/
theorem readText_basic (h : ∀ r, u ≠ '"' :: '"' :: r) :
    readText ('"' :: u) = readBasic (u.length + 1) u := by
  rw [readText.eq_3 _ (fun r heq => h r (List.cons.inj heq).2)
    (fun r heq => absurd (List.cons.inj heq).1 (by decide)), readLineText]

/-- A text between single quotes does not begin like one of several lines. -/
theorem readText_plain (h : ∀ r, u ≠ '\'' :: '\'' :: r) : readText ('\'' :: u) = readPlain u := by
  rw [readText.eq_3 _ (fun r heq => absurd (List.cons.inj heq).1 (by decide))
    (fun r heq => h r (List.cons.inj heq).2), readLineText]

theorem readPlain_append (h : ∀ c ∈ s, isPlain c = true ∧ c ≠ '\'') (rest : List Char) :
    readPlain (s ++ '\'' :: rest) = some (s, rest) := by
  let inner : Char → Bool := fun c => isPlain c && c ≠ '\''
  have hall : ∀ c ∈ s, inner c = true := by
    intro c hc
    rw [Bool.and_eq_true, decide_eq_true_eq]
    exact h c hc
  have hclosing : ¬ inner '\'' = true := by decide
  have htake : (s ++ '\'' :: rest).takeWhile inner = s := by
    rw [List.takeWhile_append_of_pos hall, List.takeWhile_cons_of_neg hclosing, List.append_nil]
  have hdrop : (s ++ '\'' :: rest).dropWhile inner = '\'' :: rest := by
    rw [List.dropWhile_append_of_pos hall, List.dropWhile_cons_of_neg hclosing]
  rw [readPlain, htake, hdrop]
  rfl

/-- The first character of a text of several lines is no break that would be skipped. -/
theorem head?_escape_lines (s : List Char) (t : List Char) :
    ∀ d ∈ (escape true 2 0 s ++ '"' :: t).head?, (d = '\n' → s.contains '\n' = true) ∧ d ≠ '\r' := by
  intro d hd
  cases s with
  | nil =>
      obtain rfl := Option.some.inj hd
      exact ⟨fun h => absurd h (by decide), by decide⟩
  | cons c s =>
      rw [escape] at hd
      by_cases hquote : c = '"'
      · rw [if_pos hquote, if_neg (by decide)] at hd
        obtain rfl := Option.some.inj hd
        exact ⟨fun h => absurd h (by decide), by decide⟩
      · rw [if_neg hquote] at hd
        rcases escapeChar_cases true c with ⟨hc, hraw⟩ | ⟨e, more, hc, -⟩
        · rw [hc] at hd
          obtain rfl := Option.some.inj hd
          exact ⟨fun h => by simp [h], hraw.carriage⟩
        · rw [hc] at hd
          obtain rfl := Option.some.inj hd
          exact ⟨fun h => absurd h (by decide), by decide⟩

/-- A text is read as what it was written for, if no quote follows. -/
theorem readText_quote (s : List Char) (hrest : ∀ d ∈ rest.head?, d ≠ '"' ∧ d ≠ '\'') :
    readText (quote s ++ rest) = some (s, rest) := by
  have hdouble : rest.head? ≠ some '"' := fun h => (hrest _ h).1 rfl
  have hsingle : rest.head? ≠ some '\'' := fun h => (hrest _ h).2 rfl
  have hlength (lines : Bool) (allowed : Nat) (t : List Char) :
      s.length < (escape lines allowed 0 s ++ t).length + 1 := by
    have := length_le_escape lines allowed 0 s
    rw [List.length_append]
    omega
  unfold quote
  dsimp only
  split
  · -- double quotes
    have htext : '"' :: escape false 0 0 s ++ ['"'] ++ rest =
        '"' :: (escape false 0 0 s ++ '"' :: rest) := by simp
    rw [htext, readText_basic]
    · exact readBasic_escape (hlength false 0 _) 0 rest
    · intro r heq
      cases hescape : escape false 0 0 s with
      | nil =>
          rw [hescape] at heq
          exact hdouble (by rw [(List.cons.inj heq).2]; rfl)
      | cons d more =>
          have hhead := head?_escape 0 s
          rw [hescape] at heq hhead
          exact hhead (congrArg some (List.cons.inj heq).1)
  · -- single quotes
    next h =>
    have hs := of_eq_plain h
    have htext : '\'' :: s ++ ['\''] ++ rest = '\'' :: (s ++ '\'' :: rest) := by simp
    rw [htext, readText_plain]
    · exact readPlain_append hs rest
    · intro r heq
      cases s with
      | nil => exact hsingle (by rw [(List.cons.inj heq).2]; rfl)
      | cons d s => exact (hs d List.mem_cons_self).2 (List.cons.inj heq).1
  · -- three double quotes
    generalize hfirst : (if s.contains '\n' then ['\n'] else []) = first
    have htext : ['"', '"', '"'] ++ first ++ escape true 2 0 s ++ ['"', '"', '"'] ++ rest =
        '"' :: '"' :: '"' :: (first ++ (escape true 2 0 s ++ '"' :: '"' :: '"' :: rest)) := by simp
    have hhead := head?_escape_lines s ('"' :: '"' :: rest)
    rw [htext, readText, ← hfirst, skipFirstBreak_first (fun d hd => (hhead d hd).1)
      (fun d hd => (hhead d hd).2)]
    refine readBasicLines_escape (Nat.zero_le 2) ?_ hdouble
    have := hlength true 2 ('"' :: '"' :: '"' :: rest)
    rw [List.length_append]
    omega
  · -- three single quotes
    next h =>
    obtain ⟨hs, hruns⟩ := of_eq_plainLines h
    generalize hfirst : (if s.contains '\n' then ['\n'] else []) = first
    have htext : ['\'', '\'', '\''] ++ first ++ s ++ ['\'', '\'', '\''] ++ rest =
        '\'' :: '\'' :: '\'' :: (first ++ (s ++ '\'' :: '\'' :: '\'' :: rest)) := by simp
    have hhead : ∀ d ∈ (s ++ '\'' :: '\'' :: '\'' :: rest).head?,
        (d = '\n' → s.contains '\n' = true) ∧ d ≠ '\r' := by
      intro d hd
      cases s with
      | nil =>
          obtain rfl := Option.some.inj hd
          exact ⟨fun h => absurd h (by decide), by decide⟩
      | cons c s =>
          obtain rfl := Option.some.inj hd
          refine ⟨fun h => by simp [h], ?_⟩
          rcases hs c List.mem_cons_self with hplain | rfl
          · exact carriage_of_isPlain hplain
          · decide
    rw [htext, readText, ← hfirst, skipFirstBreak_first (fun d hd => (hhead d hd).1)
      (fun d hd => (hhead d hd).2)]
    refine readPlainLines_append hs (Nat.zero_le 2) hruns ?_ hsingle
    rw [List.length_append, List.length_append]
    omega

end Trellis.Toml
