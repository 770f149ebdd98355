import Trellis.Proofs.Decimal.Printed
import Trellis.Proofs.Toml.Texts

/-! # Values that are written

What is written for a value is read as the value, when a line break or a comma follows. -/

namespace Trellis.Toml

open Decimal (Binary digitChars natOfDigits)
open Decimal.Digits (IsWhole IsPointed)
open Decimal.Binary (IsCanonical signChars)

variable {s t rest ds places : List Char} {c m : Char} {n : Nat} {negative : Bool}

/-! ### Digits -/

theorem ne_of_isDigit (hc : c.isDigit = true) (hm : m.isDigit = false) : c ≠ m := by
  rintro rfl
  exact absurd hc (by simp [hm])

/-- A character after the digits of a number that neither goes on with them nor makes them a date. -/
structure IsStop (c : Char) : Prop where
  /-- It is no digit. -/
  isDigit : c.isDigit = false
  /-- It does not stand between digits. -/
  line : c ≠ '_'
  /-- It does not stand in a date. -/
  minus : c ≠ '-'
  /-- It does not stand in a time. -/
  colon : c ≠ ':'

theorem isStop_point : IsStop '.' := ⟨by decide, by decide, by decide, by decide⟩

/-- Digits are read up to what stops them. -/
theorem readDigits_append (hds : ∀ d ∈ ds, d.isDigit = true) (hc : IsStop c) :
    readDigits Char.isDigit (ds ++ c :: rest) = (ds, c :: rest) := by
  induction ds with
  | nil =>
      rw [List.nil_append, readDigits.eq_2 _ _ _ fun _ _ h => absurd h hc.line, hc.isDigit]
      rfl
  | cons d ds ih =>
      have hd : d.isDigit = true := hds d List.mem_cons_self
      have hne : d ≠ '_' := ne_of_isDigit hd rfl
      rw [List.cons_append, readDigits.eq_2 _ _ _ fun _ _ h => absurd h hne, if_pos hd,
        ih fun x hx => hds x (List.mem_cons_of_mem d hx)]

theorem readNumber?_append (hds : ∀ d ∈ ds, d.isDigit = true) (hne : ds ≠ []) (hc : IsStop c) :
    readNumber? Char.isDigit (ds ++ c :: rest) = some (ds, c :: rest) := by
  obtain ⟨d, ds, rfl⟩ := List.exists_cons_of_ne_nil hne
  rw [← readDigits_append hds hc, List.cons_append, readNumber?, if_pos (hds d List.mem_cons_self)]

/-- A whole number is read with its sign. -/
theorem readDecimal?_append (negative : Bool) (hds : IsWhole ds) (hc : IsStop c) :
    readDecimal? (signChars negative ++ ds ++ c :: rest) = some (signChars negative, ds, c :: rest) := by
  have hsign : readSign (signChars negative ++ ds ++ c :: rest) = (signChars negative, ds ++ c :: rest) := by
    cases negative with
    | true => rfl
    | false =>
        obtain ⟨d, ds', rfl⟩ := List.exists_cons_of_ne_nil hds.ne_nil
        have hd := hds.isDigit d List.mem_cons_self
        exact readSign.eq_3 _ (fun _ h => ne_of_isDigit hd rfl (List.cons.inj h).1)
          fun _ h => ne_of_isDigit hd rfl (List.cons.inj h).1
  rw [readDecimal?, hsign]
  by_cases hzero : ds.head? = some '0'
  · rw [hds.zero hzero]
    rfl
  · dsimp only
    split
    · next tail h =>
      obtain ⟨d, ds, rfl⟩ := List.exists_cons_of_ne_nil hds.ne_nil
      exact absurd (congrArg some (List.cons.inj h).1) hzero
    · rw [readNumber?_append hds.isDigit hds.ne_nil hc]
      rfl

/-! ### Dates and times -/

theorem readFixed?_append (hds : ∀ d ∈ ds, d.isDigit = true) (hn : n ≤ ds.length) :
    readFixed? n (ds ++ rest) = some (natOfDigits (ds.take n), ds.drop n ++ rest) := by
  have hall : (ds.take n).all Char.isDigit = true :=
    List.all_eq_true.mpr fun d hd => hds d (List.mem_of_mem_take hd)
  rw [readFixed?, List.take_append_of_le_length hn, List.drop_append_of_le_length hn, hall]
  simp [hn]

theorem readFixed?_eq_none (hc : c.isDigit = false) (hn : ds.length < n) :
    readFixed? n (ds ++ c :: rest) = none := by
  obtain ⟨k, rfl⟩ := Nat.exists_eq_add_of_lt hn
  have hall : ((ds ++ c :: rest).take (ds.length + k + 1)).all Char.isDigit = false := by
    rw [Nat.add_assoc, List.take_length_add_append, List.take_succ_cons, List.all_append, List.all_cons, hc,
      Bool.false_and, Bool.and_false]
  rw [readFixed?, hall, Bool.and_false]
  rfl

theorem expect?_eq_none (h : ∀ d ∈ s.head?, d ≠ m) : expect? m s = none := by
  cases s with
  | nil => rfl
  | cons d s => exact if_neg (h d rfl)

/-- Digits before another character are no beginning of a date or a time that has a mark after them. -/
theorem expect?_readFixed? (hds : ∀ d ∈ ds, d.isDigit = true) (hc : c.isDigit = false) (hm : m.isDigit = false)
    (hmark : n ≤ ds.length → c ≠ m) :
    ((readFixed? n (ds ++ c :: rest)).bind fun r => expect? m r.2) = none := by
  rcases Nat.lt_or_ge ds.length n with hn | hn
  · rw [readFixed?_eq_none hc hn]
    rfl
  · rw [readFixed?_append hds hn, Option.bind_some]
    apply expect?_eq_none
    intro d hd
    cases hdrop : ds.drop n with
    | nil =>
        rw [hdrop] at hd
        obtain rfl := Option.some.inj hd
        exact hmark hn
    | cons d' more =>
        rw [hdrop] at hd
        obtain rfl := Option.some.inj hd
        have hmem : d' ∈ ds := List.mem_of_mem_drop (hdrop ▸ List.mem_cons_self)
        exact ne_of_isDigit (hds d' hmem) hm

/-- A number is no date and no time. -/
theorem looksLikeMoment_append (negative : Bool) (hds : ∀ d ∈ ds, d.isDigit = true) (hc : IsStop c) :
    looksLikeMoment (signChars negative ++ ds ++ c :: rest) = false := by
  cases negative with
  | true =>
      have hnone (n : Nat) (m : Char) (hm : m.isDigit = false) :
          ((readFixed? (n + 1) ('-' :: (ds ++ c :: rest))).bind fun r => expect? m r.2) = none :=
        expect?_readFixed? (List.forall_mem_nil _) rfl hm fun h => absurd h (Nat.not_succ_le_zero n)
      have htext : signChars true ++ ds ++ c :: rest = '-' :: (ds ++ c :: rest) := rfl
      rw [htext, looksLikeMoment, hnone 3 '-' rfl, hnone 1 ':' rfl]
      rfl
  | false =>
      have htext : signChars false ++ ds ++ c :: rest = ds ++ c :: rest := rfl
      rw [htext, looksLikeMoment, expect?_readFixed? hds hc.isDigit rfl fun _ => hc.minus,
        expect?_readFixed? hds hc.isDigit rfl fun _ => hc.colon]
      rfl

/-! ### Values without parts -/

/-- Whether a character ends a value: the line, an item of an array, or the array. -/
def isEnd (c : Char) : Bool := c = '\n' || c = ',' || c = ']'

/-- The characters that begin no value without parts: blanks, the mark of a comment, brackets. -/
def marks : List Char := [' ', '\t', '\n', '\r', '#', '[', ']', '\x7b']

/-- A text that is read as a value without parts. -/
structure IsScalar (s : List Char) (v : Toml) : Prop where
  /-- It is read where the value ends. -/
  read : ∀ c rest, isEnd c = true → readScalar (s ++ c :: rest) = some (v, c :: rest)
  /-- It begins like a value. -/
  head : ∀ d ∈ s.head?, d ∉ marks
  /-- It is not empty. -/
  ne_nil : s ≠ []

theorem isEnd_cases (h : isEnd c = true) : c = '\n' ∨ c = ',' ∨ c = ']' := by
  simpa [isEnd, or_assoc] using h

theorem isStop_of_isEnd (h : isEnd c = true) : IsStop c := by
  rcases isEnd_cases h with rfl | rfl | rfl <;> exact ⟨by decide, by decide, by decide, by decide⟩

theorem exists_quote (s : List Char) : ∃ q more, quote s = q :: more ∧ (q = '"' ∨ q = '\'') := by
  rw [quote]
  cases Quoting.of s
  · exact ⟨_, _, rfl, .inl rfl⟩
  · exact ⟨_, _, rfl, .inr rfl⟩
  · exact ⟨_, _, rfl, .inl rfl⟩
  · exact ⟨_, _, rfl, .inr rfl⟩

/-- A text with its quotes is the text. -/
theorem isScalar_quote (s : List Char) : IsScalar (quote s) (.string (String.ofList s)) := by
  obtain ⟨q, more, hquote, hq⟩ := exists_quote s
  refine ⟨fun c rest hc => ?_, fun d hd => ?_, ?_⟩
  · have hread : readText (quote s ++ c :: rest) = some (s, c :: rest) := by
      apply readText_quote
      rintro d ⟨⟩
      rcases isEnd_cases hc with rfl | rfl | rfl <;> decide
    rw [hquote, List.cons_append] at hread ⊢
    rw [readScalar]
    dsimp only
    rw [if_pos (by simpa using hq), hread]
    rfl
  · rw [hquote] at hd
    obtain rfl := Option.some.inj hd
    rcases hq with rfl | rfl <;> decide
  · rw [hquote]
    exact List.cons_ne_nil q more

theorem isScalar_truthValue (b : Bool) : IsScalar (truthValue b).toList (.boolean b) where
  read c rest _ := by
    cases b <;> rfl
  head d hd := by
    cases b <;> obtain rfl := Option.some.inj hd <;> decide
  ne_nil := by
    cases b <;> decide

/-- What a number begins with. -/
theorem exists_number (hds : IsWhole ds) (negative : Bool) :
    ∃ d more, signChars negative ++ ds = d :: more ∧ (d = '-' ∨ d.isDigit = true) := by
  cases negative with
  | true => exact ⟨'-', ds, rfl, .inl rfl⟩
  | false =>
      obtain ⟨d, ds, rfl⟩ := List.exists_cons_of_ne_nil hds.ne_nil
      exact ⟨d, ds, rfl, .inr (hds.isDigit d List.mem_cons_self)⟩

theorem number_notMem {d : Char} (h : d = '-' ∨ d.isDigit = true) :
    d ∉ marks ∧ ¬ (d = '"' ∨ d = '\'') := by
  rcases h with rfl | h
  · decide
  · constructor
    · intro hmem
      have hall : marks.all (! ·.isDigit) = true := by decide
      have := List.all_eq_true.mp hall d hmem
      simp [h] at this
    · rintro (rfl | rfl) <;> exact absurd h (by decide)

/-- Digits, perhaps after a sign, are a number: what follows them is no mark of a date or a time. -/
theorem readScalar_number (hds : IsWhole ds) (hc : IsStop c) :
    readScalar (signChars negative ++ ds ++ c :: rest) =
      match readFloat? (signChars negative ++ ds ++ c :: rest) with
      | some (x, s) => some (.float x, s)
      | none =>
        match readNamed? (signChars negative ++ ds ++ c :: rest) with
        | some (x, s) => some (.float x, s)
        | none =>
          (readInteger? (signChars negative ++ ds ++ c :: rest)).map fun (n, s) => (.integer n, s) := by
  have hmoment : looksLikeMoment (signChars negative ++ ds ++ c :: rest) = false :=
    looksLikeMoment_append negative hds.isDigit hc
  obtain ⟨d, more, htext, hd⟩ := exists_number hds negative
  rw [htext, List.cons_append] at hmoment ⊢
  have hnumber : (d.isDigit || d = '+' || d = '-') = true := by
    rcases hd with rfl | hd
    · rfl
    · rw [hd, Bool.true_or, Bool.true_or]
  rw [readScalar]
  dsimp only
  rw [if_neg (by simpa using (number_notMem hd).2), if_pos hnumber, hmoment]
  rfl

theorem readAfter?_eq_none {marks : List Char} {signed : Bool} (h : marks.contains c = false) :
    readAfter? marks signed (c :: rest) = none := by
  rw [readAfter?, h]
  rfl

theorem readNamed?_eq_none (hds : ∀ d ∈ ds.head?, d.isDigit = true) (hne : ds ≠ []) :
    readNamed? (ds ++ rest) = none := by
  obtain ⟨d, ds, rfl⟩ := List.exists_cons_of_ne_nil hne
  have hd : d.isDigit = true := hds d rfl
  have hsign : readSign (d :: ds ++ rest) = ([], d :: (ds ++ rest)) :=
    readSign.eq_3 _ (fun _ h => ne_of_isDigit hd rfl (List.cons.inj h).1)
      fun _ h => ne_of_isDigit hd rfl (List.cons.inj h).1
  rw [readNamed?, hsign]
  dsimp only
  split
  · next h => exact absurd (List.cons.inj h).1 (ne_of_isDigit hd rfl)
  · next h => exact absurd (List.cons.inj h).1 (ne_of_isDigit hd rfl)
  · rfl

/-- A number that ends here has no point and no exponent. -/
theorem readFloat?_eq_none (hds : IsWhole ds) (hc : isEnd c = true) :
    readFloat? (ds ++ c :: rest) = none := by
  have hread : readDecimal? (ds ++ c :: rest) = some ([], ds, c :: rest) :=
    readDecimal?_append false hds (isStop_of_isEnd hc)
  have hmarks : ['e', 'E'].contains c = false ∧ ['.'].contains c = false := by
    rcases isEnd_cases hc with rfl | rfl | rfl <;> decide
  rw [readFloat?, hread]
  dsimp only
  rw [readAfter?_eq_none hmarks.1, readAfter?_eq_none hmarks.2]
  rfl

theorem readInteger?_append (hds : IsWhole ds) (hc : isEnd c = true) (hn : natOfDigits ds < Nat.pow 2 63) :
    readInteger? (ds ++ c :: rest) = some ((natOfDigits ds : Int), c :: rest) := by
  have hread : readDecimal? (ds ++ c :: rest) = some ([], ds, c :: rest) :=
    readDecimal?_append false hds (isStop_of_isEnd hc)
  have hbase (m : Char) (hm : isEnd m = false) (r : List Char) : ds ++ c :: rest ≠ '0' :: m :: r := by
    intro h
    have hzero : ds = ['0'] := by
      apply hds.zero
      obtain ⟨d, ds, rfl⟩ := List.exists_cons_of_ne_nil hds.ne_nil
      exact congrArg some (List.cons.inj h).1
    rw [hzero] at h
    have hcm : c = m := (List.cons.inj (List.cons.inj h).2).1
    rw [← hcm, hc] at hm
    cases hm
  have hrange : inRange? (natOfDigits ds) = some (natOfDigits ds : Int) := by
    rw [inRange?, if_pos ⟨by omega, by exact_mod_cast hn⟩]
  rw [readInteger?.eq_4 _ (hbase 'x' rfl) (hbase 'o' rfl) (hbase 'b' rfl), hread, Option.bind_some]
  dsimp only
  rw [if_neg (by decide), hrange]
  rfl

/-- The digits of a number are the number, when it is in the range of the format. -/
theorem isScalar_digitChars (hn : n < Nat.pow 2 63) : IsScalar (digitChars n) (.integer n) := by
  have hds := Decimal.Digits.isWhole_digitChars n
  have hvalue := Decimal.natOfDigits_digitChars n
  refine ⟨fun c rest hc => ?_, fun d hd => ?_, hds.ne_nil⟩
  · have htext : digitChars n ++ c :: rest = signChars false ++ digitChars n ++ c :: rest := rfl
    rw [htext, readScalar_number hds (isStop_of_isEnd hc), ← htext, readFloat?_eq_none hds hc,
      readNamed?_eq_none (fun d hd => hds.isDigit d (List.mem_of_mem_head? hd)) hds.ne_nil,
      readInteger?_append hds hc (by rwa [hvalue]), hvalue]
    rfl
  · exact (number_notMem (.inr (hds.isDigit d (List.mem_of_mem_head? hd)))).1

/-- A number with a point ends here, with its decimal places. -/
theorem readFloat?_append {x : Binary} (h : IsPointed ds places) (hc : isEnd c = true)
    (hx : Binary.read? (signChars negative ++ (ds ++ '.' :: places)) = some x) (hfinite : ∀ b, x ≠ .infinite b) :
    readFloat? (signChars negative ++ ds ++ '.' :: (places ++ c :: rest)) = some (x, c :: rest) := by
  have hmarks : ['e', 'E'].contains c = false := by
    rcases isEnd_cases hc with rfl | rfl | rfl <;> decide
  have hplaces : readAfter? ['.'] false ('.' :: (places ++ c :: rest)) = some ('.' :: places, c :: rest) := by
    rw [readAfter?, if_pos (by decide)]
    dsimp only
    rw [if_neg Bool.false_ne_true, readNumber?_append h.isDigit h.ne_nil (isStop_of_isEnd hc)]
    rfl
  rw [readFloat?, readDecimal?_append negative h.whole isStop_point]
  dsimp only
  rw [readAfter?_eq_none (by decide), hplaces]
  dsimp only
  rw [Option.map_some]
  dsimp only
  rw [readAfter?_eq_none hmarks]
  dsimp only
  rw [Option.bind_some]
  dsimp only
  rw [List.append_assoc, hx]
  cases x with
  | notANumber => rfl
  | infinite b => exact absurd rfl (hfinite b)
  | finite b m e => rfl

/-- A number that is printed is the number. -/
theorem isScalar_plain {m : Nat} {e : Int} (h : IsCanonical (.finite negative m e)) :
    IsScalar (Binary.finite negative m e).plain.toList (.float (.finite negative m e)) := by
  obtain ⟨whole, places, hpointed, htext, hread⟩ := Binary.exists_isPointed h
  obtain ⟨d, more, hfirst, hd⟩ := exists_number hpointed.whole negative
  refine ⟨fun c rest hc => ?_, fun d' hd' => ?_, ?_⟩
  · rw [htext, List.append_assoc, List.append_assoc, List.cons_append, ← List.append_assoc,
      readScalar_number hpointed.whole isStop_point,
      readFloat?_append hpointed hc hread (by rintro b ⟨⟩)]
  · rw [htext, ← List.append_assoc, hfirst] at hd'
    obtain rfl := Option.some.inj hd'
    exact (number_notMem hd).1
  · rw [htext, ← List.append_assoc, hfirst]
    exact List.cons_ne_nil d _

/-! ### Arrays -/

theorem skipSpaces_of_head (h : ∀ d ∈ s.head?, isSpace d = false) : skipSpaces s = s := by
  cases s with
  | nil => rfl
  | cons d s => exact List.dropWhile_cons_of_neg (by simp [h d rfl])

/-- The characters that are skipped before an item. -/
structure IsSolid (s : List Char) : Prop where
  /-- No blank is there. -/
  space : ∀ d ∈ s.head?, isSpace d = false
  /-- No line ends there. -/
  newline : newline? s = none
  /-- No comment begins there. -/
  comment : ∀ r, s ≠ '#' :: r

theorem skipLines_of_isSolid (h : IsSolid s) (ht : skipSpaces t = s) : skipLines (n + 1) t = s := by
  rw [skipLines, ht]
  split
  · next r => exact absurd rfl (h.comment r)
  · rw [h.newline]

/-- The blanks before an item on a line of its own are skipped. -/
theorem skipAll_indent (k : Nat) (h : IsSolid s) :
    skipAll ('\n' :: (List.replicate k ' ' ++ s)) = s := by
  have hspaces : skipSpaces (List.replicate k ' ' ++ s) = s := by
    rw [skipSpaces, List.dropWhile_append_of_pos, ← skipSpaces, skipSpaces_of_head h.space]
    intro c hc
    rw [List.eq_of_mem_replicate hc]
    rfl
  have hbreak (u : List Char) : skipAll ('\n' :: u) = skipLines (u.length + 1) u := rfl
  rw [hbreak, skipLines_of_isSolid h hspaces]

theorem IsScalar.exists_cons {v : Toml} (h : IsScalar s v) :
    ∃ d more, s = d :: more ∧ d ∉ marks := by
  have hhead := h.head
  obtain ⟨d, more, rfl⟩ := List.exists_cons_of_ne_nil h.ne_nil
  exact ⟨d, more, rfl, hhead d rfl⟩

theorem IsScalar.isSolid {v : Toml} (h : IsScalar s v) (t : List Char) : IsSolid (s ++ t) := by
  obtain ⟨d, more, rfl, hd⟩ := h.exists_cons
  simp only [marks, List.mem_cons, not_or] at hd
  obtain ⟨hspace, htab, hfeed, hcarriage, hcomment, -⟩ := hd
  refine ⟨?_, newline?_eq_none hfeed hcarriage _, fun r heq => hcomment (List.cons.inj heq).1⟩
  rintro d' ⟨⟩
  simp [isSpace, hspace, htab]

theorem IsScalar.ne_bracket {v : Toml} (h : IsScalar s v) (t r : List Char) : s ++ t ≠ ']' :: r := by
  obtain ⟨d, more, rfl, hd⟩ := h.exists_cons
  rintro ⟨⟩
  exact hd (by decide)

/-- An array after its bracket, with each item on a line of its own. -/
def arrayChars : List String → List Char
  | [] => ['\n', ']']
  | s :: ss => '\n' :: (List.replicate 4 ' ' ++ (quote s.toList ++ ',' :: arrayChars ss))

theorem toList_textsValue {ss : List String} (h : 1 < ss.length) :
    (textsValue ss).toList = '[' :: arrayChars ss := by
  have hlines (ss : List String) :
      '\n' :: (String.join (ss.map fun s => "    " ++ textValue s ++ ",\n")).toList ++ [']'] = arrayChars ss := by
    induction ss with
    | nil => rfl
    | cons s ss ih =>
        rw [List.map_cons, String.join_cons, arrayChars, ← ih]
        simp [textValue]
  have hlong : textsValue ss =
      "[\n" ++ String.join (ss.map fun s => "    " ++ textValue s ++ ",\n") ++ "]" := by
    apply textsValue.eq_3
    · rintro rfl
      cases h
    · rintro s rfl
      exact absurd h (Nat.lt_irrefl 1)
  rw [hlong, String.toList_append, String.toList_append, ← hlines]
  rfl

/-- A value without parts is read where values are. -/
theorem readValue_of_isScalar {v : Toml} (h : IsScalar s v) (hc : isEnd c = true) (hn : 0 < n) (depth : Nat)
    (rest : List Char) : readValue n depth (s ++ c :: rest) = some (v, c :: rest) := by
  obtain ⟨n, rfl⟩ := Nat.exists_eq_succ_of_ne_zero hn.ne'
  have hread := h.read c rest hc
  obtain ⟨d, more, rfl, hd⟩ := h.exists_cons
  simp only [marks, List.mem_cons, not_or] at hd
  obtain ⟨-, -, -, -, -, hbracket, -, hbrace, -⟩ := hd
  rw [← hread, List.cons_append, readValue.eq_4 _ _ _ (fun r heq => hbracket (List.cons.inj heq).1)
    fun r heq => hbrace (List.cons.inj heq).1]

/-- The items of an array are read from its lines. -/
theorem readItems_arrayChars {ss : List String} (hn : ss.length < n) (depth : Nat) (rest : List Char) :
    readItems n depth (skipAll (arrayChars ss ++ rest)) = some (ss.map Toml.string, rest) := by
  induction ss generalizing n with
  | nil =>
      obtain ⟨n, rfl⟩ := Nat.exists_eq_succ_of_ne_zero hn.ne'
      have hsolid : IsSolid (']' :: rest) :=
        ⟨by rintro d ⟨⟩; rfl, rfl, fun r heq => absurd (List.cons.inj heq).1 (by decide)⟩
      have htext : arrayChars [] ++ rest = '\n' :: (List.replicate 0 ' ' ++ ']' :: rest) := rfl
      rw [htext, skipAll_indent 0 hsolid, readItems]
      rfl
  | cons s ss ih =>
      obtain ⟨n, rfl⟩ := Nat.exists_eq_succ_of_ne_zero (Nat.ne_zero_of_lt hn)
      have hlength : ss.length < n := Nat.lt_of_succ_lt_succ hn
      have hscalar := isScalar_quote s.toList
      have hvalue : readValue n depth (quote s.toList ++ ',' :: (arrayChars ss ++ rest)) =
          some (.string s, ',' :: (arrayChars ss ++ rest)) := by
        rw [readValue_of_isScalar hscalar rfl (Nat.zero_lt_of_lt hlength), String.ofList_toList]
      have hcomma (r : List Char) : skipAll (',' :: r) = ',' :: r := rfl
      have htext : arrayChars (s :: ss) ++ rest = '\n' :: (List.replicate 4 ' ' ++
          (quote s.toList ++ ',' :: (arrayChars ss ++ rest))) := by
        simp [arrayChars]
      rw [htext, skipAll_indent 4 (hscalar.isSolid _), readItems.eq_3 _ _ _ (hscalar.ne_bracket _), hvalue]
      dsimp only
      rw [hcomma]
      change (readItems n depth (skipAll (arrayChars ss ++ rest))).map
        (fun found => (Toml.string s :: found.1, found.2)) = _
      rw [ih hlength]
      rfl

/-! ### Values of settings -/

/-- A text that is read as the value of a setting. -/
structure IsValue (s : List Char) (v : Toml) : Prop where
  /-- It is read up to the end of its line. -/
  read : ∀ n rest, s.length < n → readValue n depthLimit (s ++ '\n' :: rest) = some (v, '\n' :: rest)
  /-- It begins with no blank. -/
  head : ∀ d ∈ s.head?, isSpace d = false

theorem isValue_of_isScalar {v : Toml} (h : IsScalar s v) : IsValue s v where
  read n rest hn := readValue_of_isScalar h rfl (Nat.zero_lt_of_lt hn) depthLimit rest
  head d hd := by
    have hhead := h.head d hd
    simp only [marks, List.mem_cons, not_or] at hhead
    simp [isSpace, hhead.1, hhead.2.1]

theorem isValue_textValue (s : String) : IsValue (textValue s).toList (.string s) := by
  have hscalar := isScalar_quote s.toList
  rw [String.ofList_toList] at hscalar
  rw [textValue, String.toList_ofList]
  exact isValue_of_isScalar hscalar

theorem length_le_arrayChars (ss : List String) : ss.length < (arrayChars ss).length := by
  induction ss with
  | nil => decide
  | cons s ss ih =>
      simp only [arrayChars, List.length_cons, List.length_append]
      omega

/-- The items of an array with one item are read from its line. -/
theorem readItems_single (s : String) (hn : 1 < n) (depth : Nat) (rest : List Char) :
    readItems n depth (skipAll (quote s.toList ++ ']' :: rest)) = some ([.string s], rest) := by
  obtain ⟨n, rfl⟩ := Nat.exists_eq_succ_of_ne_zero (Nat.ne_zero_of_lt hn)
  have hscalar := isScalar_quote s.toList
  have hskip : skipAll (quote s.toList ++ ']' :: rest) = quote s.toList ++ ']' :: rest :=
    skipLines_of_isSolid (hscalar.isSolid _) (skipSpaces_of_head (hscalar.isSolid _).space)
  have hvalue : readValue n depth (quote s.toList ++ ']' :: rest) = some (.string s, ']' :: rest) := by
    rw [readValue_of_isScalar hscalar rfl (Nat.lt_of_succ_lt_succ hn), String.ofList_toList]
  have hend : skipAll (']' :: rest) = ']' :: rest := rfl
  rw [hskip, readItems.eq_3 _ _ _ (hscalar.ne_bracket _), hvalue]
  dsimp only
  rw [hend]
  rfl

/-- Texts as an array are the array of the texts. -/
theorem isValue_textsValue (ss : List String) :
    IsValue (textsValue ss).toList (.array (ss.map Toml.string)) := by
  have hopen (n : Nat) (r : List Char) : readValue (n + 1) depthLimit ('[' :: r) =
      (readItems n (depthLimit - 1) (skipAll r)).map fun found => (.array found.1, found.2) := by
    rw [readValue, if_neg (by decide)]
  rcases ss with _ | ⟨s, _ | ⟨s', ss⟩⟩
  · have htext : (textsValue []).toList = ['[', ']'] := rfl
    rw [htext]
    refine ⟨fun n rest hn => ?_, by rintro d ⟨⟩; rfl⟩
    obtain ⟨n, rfl⟩ : ∃ k, n = k + 2 := ⟨n - 2, by rw [List.length_cons] at hn; omega⟩
    have hskip (r : List Char) : skipAll (']' :: r) = ']' :: r := rfl
    rw [List.cons_append, hopen, List.singleton_append, hskip, readItems]
    rfl
  · have htext : (textsValue [s]).toList = '[' :: (quote s.toList ++ [']']) := by
      simp [textsValue, textValue]
    rw [htext]
    refine ⟨fun n rest hn => ?_, by rintro d ⟨⟩; rfl⟩
    rw [List.length_cons, List.length_append, List.length_singleton] at hn
    obtain ⟨n, rfl⟩ := Nat.exists_eq_succ_of_ne_zero (Nat.ne_zero_of_lt hn)
    rw [List.cons_append, hopen, List.append_assoc, List.singleton_append, readItems_single s (by omega)]
    rfl
  · have hlong : 1 < (s :: s' :: ss).length := Nat.succ_lt_succ (Nat.succ_pos ss.length)
    rw [toList_textsValue hlong]
    refine ⟨fun n rest hn => ?_, by rintro d ⟨⟩; rfl⟩
    obtain ⟨n, rfl⟩ := Nat.exists_eq_succ_of_ne_zero (Nat.ne_zero_of_lt hn)
    have hlength := length_le_arrayChars (s :: s' :: ss)
    rw [List.length_cons] at hn
    rw [List.cons_append, hopen, readItems_arrayChars (by omega)]
    rfl

end Trellis.Toml
