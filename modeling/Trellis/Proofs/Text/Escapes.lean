import Trellis.Syntax.Lexeme

/-! # Escapes in literals

What the content of a string literal, or of a template without substitutions, denotes.

* `Escape.denoted` gives the code points of one escape, whose length the lexer knows: a character by
  its number, a letter for a control character, a line break for nothing, anything else for itself.
* `Escape.decoded` gives the characters of a whole content. Two escapes may make one character, a
  surrogate that stands alone is replaced.
* Without a backslash a content denotes itself (`decoded_of_plain`), with one it denotes fewer
  characters than it has (`length_decoded_lt`). -/

namespace Trellis.Text.Escape

open Syntax

/-- The value of a digit of any base up to sixteen. -/
def digitValue (c : Char) : Nat :=
  if c.isDigit then c.toNat - '0'.toNat
  else if 'a' ≤ c then c.toNat - 'a'.toNat + 10
  else c.toNat - 'A'.toNat + 10

/-- The number that some digits stand for. -/
def numeral (base : Nat) (digits : List Char) : Nat :=
  digits.foldl (fun n c => base * n + digitValue c) 0

/-- Up to three octal digits. They stand for one character below 256; otherwise the last digit is a
character of its own. -/
def octal (digits : List Char) : List Nat :=
  let n := numeral 8 digits
  if n < 256 then [n] else [n / 8, '0'.toNat + n % 8]

/-- The code point of an escaped letter. -/
def letter (c : Char) : Nat :=
  if c = 'n' then 10 else if c = 'r' then 13 else if c = 't' then 9
  else if c = 'b' then 8 else if c = 'v' then 11 else if c = 'f' then 12
  else c.toNat

/-- The code points of an escape, which is given without its backslash. -/
def denoted : List Char → List Nat
  | [] => []
  | c :: s =>
    if c = 'x' then [numeral 16 s]
    else if c = 'u' then [numeral 16 (s.filter Lexeme.isHex)]
    else if '0' ≤ c && c ≤ '7' then octal (c :: s)
    else if Lexeme.isBreak c then []
    else [letter c]

/-- The code points of a content; `n` bounds its length. -/
def codesFrom : Nat → List Char → List Nat
  | 0, _ => []
  | _ + 1, [] => []
  | n + 1, c :: s =>
    if c = '\\' then
      let k := (Lexeme.escape? s).getD 1
      denoted (s.take k) ++ codesFrom n (s.drop k)
    else c.toNat :: codesFrom n s

/-- Whether a code point is the first of a pair of surrogates. -/
def isHigh (n : Nat) : Bool := 0xD800 ≤ n && n < 0xDC00

/-- Whether a code point is the second of a pair of surrogates. -/
def isLow (n : Nat) : Bool := 0xDC00 ≤ n && n < 0xE000

/-- The character of a code point. -/
def charOf (n : Nat) : Char := if n.isValidChar then Char.ofNat n else Char.ofNat 0xFFFD

/-- The characters of some code points. -/
def chars : List Nat → List Char
  | [] => []
  | [a] => [charOf a]
  | a :: b :: ns =>
    if isHigh a && isLow b then
      charOf (0x10000 + (a - 0xD800) * 0x400 + (b - 0xDC00)) :: chars ns
    else charOf a :: chars (b :: ns)

/-- The characters that a content denotes. -/
def decoded (s : List Char) : List Char := chars (codesFrom s.length s)

/-! ### Lengths -/

theorem length_octal_le {c : Char} (h : c ≤ '7') (s : List Char) :
    (octal (c :: s)).length ≤ s.length + 1 := by
  unfold octal
  dsimp only
  split
  · simp
  · next hlarge =>
    cases s with
    | nil =>
        -- one digit is too small for two characters
        have hc : c.toNat ≤ 55 := h
        have hvalue : numeral 8 [c] = digitValue c := by simp [numeral]
        have hsmall : digitValue c < 256 := by
          unfold digitValue
          split
          · omega
          · split <;> omega
        omega
    | cons d s => simp

/-- An escape denotes no more characters than stand behind its backslash. -/
theorem length_denoted_le (s : List Char) : (denoted s).length ≤ s.length := by
  cases s with
  | nil => exact Nat.le_refl 0
  | cons c s =>
      rw [denoted, List.length_cons]
      split
      · simp
      · split
        · simp
        · split
          · next hdigit =>
            exact length_octal_le (of_decide_eq_true (Bool.and_eq_true_iff.mp hdigit).2) s
          · split <;> simp

theorem length_denoted_take (k : Nat) (s : List Char) :
    (denoted (s.take k)).length + (s.drop k).length ≤ s.length := by
  have htake := length_denoted_le (s.take k)
  rw [List.length_take] at htake
  rw [List.length_drop]
  omega

theorem length_codesFrom_le (n : Nat) (s : List Char) : (codesFrom n s).length ≤ s.length := by
  induction n generalizing s with
  | zero => exact Nat.zero_le _
  | succ n ih =>
      cases s with
      | nil => exact Nat.le_refl 0
      | cons c s =>
          rw [codesFrom, List.length_cons]
          split
          · have hescape := length_denoted_take ((Lexeme.escape? s).getD 1) s
            have hrest := ih (s.drop ((Lexeme.escape? s).getD 1))
            rw [List.length_append]
            omega
          · exact Nat.succ_le_succ (ih s)

theorem length_codesFrom_lt {s : List Char} (h : '\\' ∈ s) (n : Nat) :
    (codesFrom n s).length < s.length := by
  induction n generalizing s with
  | zero => exact List.length_pos_of_mem h
  | succ n ih =>
      cases s with
      | nil => cases h
      | cons c s =>
          rw [codesFrom, List.length_cons]
          split
          · have hescape := length_denoted_take ((Lexeme.escape? s).getD 1) s
            have hrest := length_codesFrom_le n (s.drop ((Lexeme.escape? s).getD 1))
            rw [List.length_append]
            omega
          · next hc =>
            exact Nat.succ_lt_succ (ih ((List.mem_cons.mp h).resolve_left (Ne.symm hc)))

theorem length_chars_le (ns : List Nat) : (chars ns).length ≤ ns.length := by
  induction ns using chars.induct with
  | case1 => simp [chars]
  | case2 a => simp [chars]
  | case3 a b ns h ih =>
      rw [chars, if_pos h, List.length_cons, List.length_cons, List.length_cons]
      omega
  | case4 a b ns h ih =>
      rw [chars, if_neg h, List.length_cons, List.length_cons]
      omega

/-- A content denotes no more characters than it has. -/
theorem length_decoded_le (s : List Char) : (decoded s).length ≤ s.length :=
  Nat.le_trans (length_chars_le _) (length_codesFrom_le _ _)

/-- A content with a backslash denotes fewer characters. -/
theorem length_decoded_lt {s : List Char} (h : '\\' ∈ s) : (decoded s).length < s.length :=
  Nat.lt_of_le_of_lt (length_chars_le _) (length_codesFrom_lt h _)

/-! ### Contents without escapes -/

theorem charOf_toNat (c : Char) : charOf c.toNat = c := by
  rw [charOf, if_pos (show c.toNat.isValidChar from c.valid), Char.ofNat_toNat]

theorem isHigh_toNat (c : Char) : isHigh c.toNat = false := by
  have hvalid : c.toNat < 0xD800 ∨ 0xDFFF < c.toNat ∧ c.toNat < 0x110000 := c.valid
  rw [isHigh, Bool.and_eq_false_iff, decide_eq_false_iff_not, decide_eq_false_iff_not]
  omega

theorem chars_map_toNat (s : List Char) : chars (s.map Char.toNat) = s := by
  induction s with
  | nil => rfl
  | cons c s ih =>
      cases s with
      | nil => rw [List.map_cons, List.map_nil, chars, charOf_toNat]
      | cons c' s =>
          rw [List.map_cons, List.map_cons, chars, isHigh_toNat, Bool.false_and,
            if_neg Bool.false_ne_true, charOf_toNat, ← List.map_cons, ih]

theorem codesFrom_of_plain {s : List Char} (h : '\\' ∉ s) {n : Nat} (hn : s.length ≤ n) :
    codesFrom n s = s.map Char.toNat := by
  induction s generalizing n with
  | nil => cases n <;> rfl
  | cons c s ih =>
      obtain ⟨hc, hs⟩ := not_or.mp (mt List.mem_cons.mpr h)
      obtain ⟨n, rfl⟩ := Nat.exists_eq_succ_of_ne_zero (Nat.ne_of_gt (Nat.zero_lt_of_lt hn))
      rw [codesFrom, if_neg (Ne.symm hc), ih hs (Nat.le_of_succ_le_succ hn), List.map_cons]

/-- A content without a backslash denotes itself. -/
theorem decoded_of_plain {s : List Char} (h : '\\' ∉ s) : decoded s = s := by
  rw [decoded, codesFrom_of_plain h (Nat.le_refl _), chars_map_toNat]

/-- Among escapes and surrogates, the ones of a letter and a line break. -/
example : decoded "a\\u0042\\x43\\u\x7b1F600\x7d\\uD83D\\uDE00\\\nd\\n".toList =
    "aBC😀😀d\n".toList := by decide +kernel

end Trellis.Text.Escape
