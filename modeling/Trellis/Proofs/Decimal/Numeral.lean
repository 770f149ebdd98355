import Trellis.Decimal.Digits

/-! # Decimal numerals

Numbers as they are written in a program: digits, a point somewhere, an exponent, a minus in front.
Each of them is read as a number (`Numeral.isSome_read?`). -/

namespace Trellis.Decimal

/-- What scales a numeral by a power of ten. -/
structure Power where
  /-- The letter in front. -/
  mark : Char
  /-- The sign of the exponent, if there is one. -/
  sign : List Char
  /-- The digits of the exponent. -/
  digits : List Char
  /-- The letter is an `e`. -/
  isMark : mark = 'e' ∨ mark = 'E'
  /-- The sign is plus or minus. -/
  isSign : sign = [] ∨ sign = ['+'] ∨ sign = ['-']
  /-- There is a digit. -/
  nonempty : digits ≠ []
  /-- There are only digits. -/
  isDigits : ∀ c ∈ digits, c.isDigit = true

/-- The text of a power. -/
def Power.chars (p : Power) : List Char := p.mark :: (p.sign ++ p.digits)

/-- A decimal numeral. -/
structure Numeral where
  /-- Whether a minus stands in front. -/
  negative : Bool
  /-- The digits before the point. -/
  whole : List Char
  /-- The digits behind the point, if there is one. -/
  places : Option (List Char)
  /-- The power of ten, if there is one. -/
  power : Option Power
  /-- There is a digit. -/
  nonempty : whole ≠ [] ∨ ∃ ds, places = some ds ∧ ds ≠ []
  /-- Before the point there are only digits. -/
  isWhole : ∀ c ∈ whole, c.isDigit = true
  /-- Behind the point there are only digits. -/
  isPlaces : ∀ ds, places = some ds → ∀ c ∈ ds, c.isDigit = true

namespace Numeral

/-- The text behind the last digit of the number that is scaled. -/
def powerChars (n : Numeral) : List Char :=
  match n.power with
  | none => []
  | some p => p.chars

/-- The text without a sign. -/
def unsigned (n : Numeral) : List Char :=
  match n.places with
  | none => n.whole ++ n.powerChars
  | some ds => n.whole ++ '.' :: (ds ++ n.powerChars)

/-- The text of a numeral. -/
def chars (n : Numeral) : List Char := if n.negative then '-' :: n.unsigned else n.unsigned

end Numeral

/-! ### Reading -/

/-- A number that begins with no sign is read as it stands. -/
theorem splitSign_of_head {s : List Char} (h : ∀ c ∈ s.head?, c ≠ '-' ∧ c ≠ '+') :
    splitSign s = (false, s) := by
  rw [splitSign.eq_def]
  split
  · exact absurd rfl (h '-' rfl).1
  · exact absurd rfl (h '+' rfl).2
  · rfl

theorem ne_sign_of_isDigit {c : Char} (h : c.isDigit = true) : c ≠ '-' ∧ c ≠ '+' := by
  constructor <;> rintro rfl <;> exact absurd h (by decide)

theorem Power.isSome_readExponent? (p : Power) : (readExponent? p.chars).isSome = true := by
  have hsign : ∃ negative, splitSign (p.sign ++ p.digits) = (negative, p.digits) := by
    rcases p.isSign with h | h | h <;> rw [h]
    · exact ⟨false, splitSign_of_head fun c hc =>
        ne_sign_of_isDigit (p.isDigits c (List.mem_of_mem_head? hc))⟩
    · exact ⟨false, rfl⟩
    · exact ⟨true, rfl⟩
  obtain ⟨negative, hsplit⟩ := hsign
  have hmark : (p.mark = 'e' || p.mark = 'E') = true := by
    rcases p.isMark with h | h <;> rw [h] <;> rfl
  have hdigits : ¬ (p.digits.isEmpty || !p.digits.all Char.isDigit) = true := by
    rw [Bool.not_eq_true, Bool.or_eq_false_iff, List.isEmpty_eq_false_iff, Bool.not_eq_false',
      List.all_eq_true]
    exact ⟨p.nonempty, p.isDigits⟩
  rw [Power.chars, readExponent?, if_pos hmark, hsplit]
  dsimp only
  rw [if_neg hdigits]
  rfl

/-- Digits are read up to what is none. -/
theorem takeWhile_digits {ds s : List Char} (hds : ∀ c ∈ ds, c.isDigit = true)
    (hs : ∀ c ∈ s.head?, c.isDigit = false) :
    (ds ++ s).takeWhile Char.isDigit = ds ∧ (ds ++ s).dropWhile Char.isDigit = s := by
  rw [List.takeWhile_append_of_pos hds, List.dropWhile_append_of_pos hds]
  cases s with
  | nil => exact ⟨List.append_nil ds, rfl⟩
  | cons c s =>
      have hc := hs c rfl
      rw [List.takeWhile_cons, List.dropWhile_cons, hc, if_neg Bool.false_ne_true,
        if_neg Bool.false_ne_true]
      exact ⟨List.append_nil ds, rfl⟩

namespace Numeral

theorem head_powerChars (n : Numeral) :
    ∀ c ∈ n.powerChars.head?, c.isDigit = false ∧ c ≠ '.' := by
  rw [powerChars]
  cases n.power with
  | none => exact nofun
  | some p =>
      rintro c ⟨⟩
      rcases p.isMark with h | h <;> rw [h] <;> decide

theorem isSome_readPower (n : Numeral) : (readExponent? n.powerChars).isSome = true := by
  rw [powerChars]
  cases n.power with
  | none => rfl
  | some p => exact p.isSome_readExponent?

theorem isSome_readDecimal? (n : Numeral) : (readDecimal? n.unsigned).isSome = true := by
  have hpower := n.isSome_readPower
  rw [unsigned]
  cases hplaces : n.places with
  | none =>
      obtain ⟨htake, hdrop⟩ := takeWhile_digits n.isWhole fun c hc => (n.head_powerChars c hc).1
      -- This settles which branch is read: what follows the digits is no point.
      have hpoint : ∀ r, n.powerChars ≠ '.' :: r := fun r hr =>
        (n.head_powerChars '.' (by rw [hr]; rfl)).2 rfl
      have hne : n.whole ≠ [] := n.nonempty.resolve_right (by
        rintro ⟨ds, hds, -⟩
        rw [hplaces] at hds
        cases hds)
      simp only [readDecimal?, htake, hdrop]
      simpa [hne] using hpower
  | some ds =>
      obtain ⟨htake, hdrop⟩ := takeWhile_digits (s := '.' :: (ds ++ n.powerChars)) n.isWhole
        (by rintro c ⟨⟩; rfl)
      obtain ⟨htake', hdrop'⟩ :=
        takeWhile_digits (n.isPlaces ds hplaces) fun c hc => (n.head_powerChars c hc).1
      have hne : (n.whole.isEmpty && ds.isEmpty) = false := by
        rw [Bool.and_eq_false_iff, List.isEmpty_eq_false_iff, List.isEmpty_eq_false_iff]
        refine n.nonempty.imp_right ?_
        rintro ⟨ds', hds, hne⟩
        rw [hplaces] at hds
        cases hds
        exact hne
      simp only [readDecimal?, htake, hdrop, htake', hdrop', hne]
      simpa using hpower

/-- The first character of a numeral is a digit or the point. -/
theorem head_unsigned (n : Numeral) : ∀ c ∈ n.unsigned.head?, c.isDigit = true ∨ c = '.' := by
  intro c hc
  rw [unsigned] at hc
  cases hwhole : n.whole with
  | cons x xs =>
      refine .inl (n.isWhole c ?_)
      rw [hwhole] at hc ⊢
      cases hplaces : n.places <;> rw [hplaces] at hc <;> cases hc <;> exact List.mem_cons_self
  | nil =>
      obtain ⟨ds, hds, -⟩ := n.nonempty.resolve_left (not_not_intro hwhole)
      rw [hwhole, hds] at hc
      cases hc
      exact .inr rfl

theorem splitSign_chars (n : Numeral) : splitSign n.chars = (n.negative, n.unsigned) := by
  rw [chars]
  split
  · next h => rw [h]; rfl
  · next h =>
    rw [Bool.eq_false_iff.mpr h]
    refine splitSign_of_head fun c hc => ?_
    rcases n.head_unsigned c hc with hdigit | rfl
    · exact ne_sign_of_isDigit hdigit
    · decide

theorem toLower_of_isDigit {c : Char} (h : c.isDigit = true) : c.toLower = c := by
  rw [Char.isDigit, Bool.and_eq_true, decide_eq_true_eq, decide_eq_true_eq] at h
  exact dif_neg fun hupper => absurd (UInt32.le_trans hupper.1 h.2) (by decide)

/-- No numeral is the name of a number, in whatever case. -/
theorem unsigned_ne_name (n : Numeral) {name : List Char}
    (h : name.head?.any (fun c => !c.isDigit && c ≠ '.') = true) :
    n.unsigned ≠ name ∧ n.unsigned.map Char.toLower ≠ name := by
  obtain ⟨c, hc, hname⟩ := (Option.any_eq_true _ _).mp h
  rw [Bool.and_eq_true, Bool.not_eq_true', decide_eq_true_eq] at hname
  have hhead {x : Char} (hx : x ∈ n.unsigned.head?) : x.toLower = x ∧ x ≠ c := by
    rcases n.head_unsigned x hx with hdigit | rfl
    · refine ⟨toLower_of_isDigit hdigit, ?_⟩
      rintro rfl
      rw [hdigit] at hname
      cases hname.1
    · exact ⟨by decide, hname.2.symm⟩
  constructor
  · rintro rfl
    exact (hhead hc).2 rfl
  · rintro rfl
    rw [List.head?_map] at hc
    obtain ⟨x, hx, rfl⟩ := Option.map_eq_some_iff.mp hc
    exact (hhead hx).2 (hhead hx).1.symm

/-- A numeral is read as the number that its digits denote. -/
theorem read?_chars (n : Numeral) :
    Binary.read? n.chars = (readDecimal? n.unsigned).map (·.toBinary n.negative) := by
  rw [Binary.read?, n.splitSign_chars]
  dsimp only
  rw [if_neg, if_neg (n.unsigned_ne_name (by decide)).2]
  rw [Bool.or_eq_true, decide_eq_true_eq, decide_eq_true_eq, not_or]
  exact ⟨(n.unsigned_ne_name (by decide)).2, (n.unsigned_ne_name (by decide)).2⟩

/-- Each numeral is read as a number. -/
theorem isSome_read? (n : Numeral) : (Binary.read? n.chars).isSome = true := by
  rw [n.read?_chars, Option.isSome_map]
  exact n.isSome_readDecimal?

end Numeral

/-! ### Characters of numbers -/

/-- Whether a character stands in no number. -/
structure IsForeign (c : Char) : Prop where
  /-- It is no digit. -/
  digit : c.isDigit = false
  /-- It is no capital letter. -/
  lower : c.toLower = c
  /-- It is no mark of a decimal. -/
  mark : c ∉ "+-.eE".toList
  /-- It stands in no name of a number. -/
  name : c ∉ "infinity".toList ++ "nan".toList

section foreign
variable {c : Char} (hc : IsForeign c) {s : List Char}
include hc

theorem notMem_of_splitSign (h : c ∉ (splitSign s).2) : c ∉ s := by
  have hmark := hc.mark
  unfold splitSign at h
  split at h
  · next s =>
    rw [List.mem_cons, not_or]
    exact ⟨fun heq => hmark (heq ▸ by decide), h⟩
  · next s =>
    rw [List.mem_cons, not_or]
    exact ⟨fun heq => hmark (heq ▸ by decide), h⟩
  · exact h

theorem notMem_of_all_digits (h : s.all Char.isDigit = true) : c ∉ s := fun hmem => by
  have := List.all_eq_true.mp h c hmem
  rw [hc.digit] at this
  cases this

theorem notMem_of_readExponent? (h : (readExponent? s).isSome = true) : c ∉ s := by
  cases s with
  | nil => exact List.not_mem_nil
  | cons x s =>
      rw [readExponent?] at h
      split at h
      · next hx =>
        dsimp only at h
        split at h
        · cases h
        · next hds =>
          rw [Bool.or_eq_true, not_or, Bool.not_eq_true', Bool.not_eq_false] at hds
          rw [List.mem_cons, not_or]
          refine ⟨?_, notMem_of_splitSign hc (notMem_of_all_digits hc hds.2)⟩
          rintro rfl
          have hmark := hc.mark
          rw [Bool.or_eq_true, decide_eq_true_eq, decide_eq_true_eq] at hx
          rcases hx with rfl | rfl <;> exact hmark (by decide)
      · cases h

theorem notMem_of_readDecimal? (h : (readDecimal? s).isSome = true) : c ∉ s := by
  have hdigits (t : List Char) : c ∉ t.takeWhile Char.isDigit :=
    notMem_of_all_digits hc List.all_takeWhile
  have hpart {t : List Char} (ht : c ∉ t.dropWhile Char.isDigit) : c ∉ t := by
    rw [← List.takeWhile_append_dropWhile (p := Char.isDigit) (l := t), List.mem_append, not_or]
    exact ⟨hdigits t, ht⟩
  refine hpart ?_
  unfold readDecimal? at h
  dsimp only at h
  split at h
  · next r hr =>
    split at h
    · cases h
    · rw [Option.isSome_map] at h
      rw [hr, List.mem_cons, not_or]
      exact ⟨fun heq => hc.mark (heq ▸ by decide), hpart (notMem_of_readExponent? hc h)⟩
  · split at h
    · cases h
    · rw [Option.isSome_map] at h
      exact notMem_of_readExponent? hc h

/-- A character that stands in no number stands in nothing that is read as one. -/
theorem Binary.notMem_of_read? (h : (read? s).isSome = true) : c ∉ s := by
  refine notMem_of_splitSign hc ?_
  have hname {name : List Char} (heq : (splitSign s).2.map Char.toLower = name) (hno : c ∉ name) :
      c ∉ (splitSign s).2 := fun hmem => hno (by
        rw [← heq, ← hc.lower]
        exact List.mem_map_of_mem hmem)
  have hnames := hc.name
  rw [List.mem_append, not_or] at hnames
  unfold read? at h
  dsimp only at h
  split at h
  · next heq =>
    rw [Bool.or_eq_true, decide_eq_true_eq, decide_eq_true_eq] at heq
    rcases heq with heq | heq
    · exact hname heq fun hmem => hnames.1 (List.mem_append_left "inity".toList hmem)
    · exact hname heq hnames.1
  · split at h
    · next heq => exact hname heq hnames.2
    · rw [Option.isSome_map] at h
      exact notMem_of_readDecimal? hc h

end foreign

end Trellis.Decimal
