/-! # Searching in texts

Prefixes, suffixes, splitting and replacing, on lists of characters.

* `List.isPrefixOf` of core decides whether a text starts with another; `dropStart?` gives what
  follows.
* `splitWhere` cuts at every character of a class, `replaceAll` puts a text in place of every
  occurrence of another, from left to right and without looking again at what was put in. -/

namespace Trellis.Text

namespace Search

/-- What follows `p` in a text that starts with it. -/
def dropStart? : List Char → List Char → Option (List Char)
  | [], s => some s
  | _ :: _, [] => none
  | p :: ps, c :: cs => if p = c then dropStart? ps cs else none

theorem dropStart?_append (p s : List Char) : dropStart? p (p ++ s) = some s := by
  induction p with
  | nil => rfl
  | cons c p ih => simp [dropStart?, ih]

theorem eq_append_of_dropStart? {p s r : List Char} (h : dropStart? p s = some r) :
    s = p ++ r := by
  induction p generalizing s with
  | nil => simpa [dropStart?] using h
  | cons c p ih =>
    cases s with
    | nil => simp [dropStart?] at h
    | cons d s =>
      simp only [dropStart?] at h
      split at h
      · rename_i hcd; subst hcd; simp [ih h]
      · cases h

theorem length_of_dropStart? {p s r : List Char} (h : dropStart? p s = some r) :
    s.length = p.length + r.length := by
  rw [eq_append_of_dropStart? h, List.length_append]

/-- Whether `p` occurs in a text. -/
def contains (p : List Char) : List Char → Bool
  | [] => p.isEmpty
  | c :: s => p.isPrefixOf (c :: s) || contains p s

/-- The pieces between the characters that satisfy `p`; always at least one piece. -/
def splitWhere (p : Char → Bool) : List Char → List (List Char)
  | [] => [[]]
  | c :: s =>
    match splitWhere p s with
    | [] => [[]]
    | piece :: more => if p c then [] :: piece :: more else (c :: piece) :: more

theorem splitWhere_ne_nil (p : Char → Bool) (s : List Char) : splitWhere p s ≠ [] := by
  cases s with
  | nil => simp [splitWhere]
  | cons c s =>
    rw [splitWhere]
    split
    · simp
    · split <;> simp

/-- The pieces before a separator and those after it. -/
theorem splitWhere_append_cons {p : Char → Bool} {c : Char} (hc : p c = true)
    (before after : List Char) :
    splitWhere p (before ++ c :: after) = splitWhere p before ++ splitWhere p after := by
  induction before with
  | nil =>
    rw [List.nil_append, splitWhere.eq_2, splitWhere.eq_1]
    cases h : splitWhere p after with
    | nil => exact absurd h (splitWhere_ne_nil p after)
    | cons piece more =>
      dsimp only
      rw [if_pos hc]
      rfl
  | cons d before ih =>
    rw [List.cons_append, splitWhere.eq_2, ih, splitWhere.eq_2]
    cases h : splitWhere p before with
    | nil => exact absurd h (splitWhere_ne_nil p before)
    | cons piece more =>
      dsimp only [List.cons_append]
      split <;> rfl

/-- Puts `new` in place of every occurrence of the text `old`, which is not empty. -/
def replaceAll (old new : List Char) (s : List Char) : List Char :=
  if old.isEmpty then s else go s.length s
where
  /-- One occurrence or one character at a time; `n` bounds the characters left. -/
  go : Nat → List Char → List Char
    | 0, s => s
    | _ + 1, [] => []
    | n + 1, c :: s =>
      match dropStart? old (c :: s) with
      | some r => new ++ go n r
      | none => c :: go n s

/-- What is left of a text after `p`, which is not empty, is taken off its start as often as
possible; `n` bounds how often. -/
def dropStarts (p : List Char) : Nat → List Char → List Char
  | 0, s => s
  | n + 1, s =>
    match dropStart? p s with
    | some r => dropStarts p n r
    | none => s

end Search

/-- Whether the string starts with `p`. -/
def startsWith (s p : String) : Bool := p.toList.isPrefixOf s.toList

/-- Whether the string ends with `p`. -/
def endsWith (s p : String) : Bool := p.toList.isSuffixOf s.toList

/-- What follows `p` in a string that starts with it. -/
def dropStart? (s p : String) : Option String :=
  (Search.dropStart? p.toList s.toList).map String.ofList

/-- The string without all `p` at its start. -/
def dropStarts (s p : String) : String :=
  String.ofList (Search.dropStarts p.toList s.length s.toList)

/-- The string without all `p` at its end. -/
def dropEnds (s p : String) : String :=
  String.ofList (Search.dropStarts p.toList.reverse s.length s.toList.reverse).reverse

/-- Whether `p` occurs in the string. -/
def contains (s p : String) : Bool := Search.contains p.toList s.toList

/-- Puts `new` in place of every occurrence of `old`. -/
def replaceAll (s old new : String) : String :=
  String.ofList (Search.replaceAll old.toList new.toList s.toList)

end Trellis.Text
