import Trellis.Proofs.Suite.Forced

/-! # Entries of objects

The keys and the entries of the objects in a generated module, read as the language of the module
reads them.

* `Suite.key?` reads the key at the start of a text: a name stands for itself, a string literal for
  the text that it denotes.
* `Suite.key?_propKey`: the key of a prop denotes just its name, whatever characters the name has.
* `Suite.readPair?` reads an entry, and `Suite.readPair?_entry` says that one is read as the name
  and the value that it was written from. -/

namespace Trellis

open Syntax

namespace Suite

/-- Whether a character may go on with a name. -/
def isNamePart (c : Char) : Bool := isNameStart c || c.isDigit

/-- The name of the key at the start of a text, and what follows the key. -/
def key? (s : List Char) : Option (List Char × List Char) :=
  if s.head?.any isNameStart then some (s.takeWhile isNamePart, s.dropWhile isNamePart)
  else
    (Lexeme.string? s).bind fun n =>
      (Expression.text? (s.take n)).map fun name => (name, s.drop n)

/-- The name and the value of an entry of an object. -/
def readPair? (entry : String) : Option (String × String) := do
  let (name, rest) ← key? entry.toList
  let value ← Text.Search.dropStart? [':', ' '] rest
  some (String.ofList name, String.ofList value)

variable {name rest : List Char}

theorem isNameStart_quote : isNameStart '\'' = false := by decide

/-- A name as a key ends where no further character belongs to it. -/
theorem key?_of_isName {name : String} (h : isName name = true)
    (hrest : ∀ c ∈ rest.head?, isNamePart c = false) :
    key? (name.toList ++ rest) = some (name.toList, rest) := by
  unfold isName at h
  cases hn : name.toList with
  | nil => rw [hn] at h; cases h
  | cons c s =>
      rw [hn, Bool.and_eq_true, List.all_eq_true] at h
      have hpart : ∀ d ∈ c :: s, isNamePart d = true := by
        rw [List.forall_mem_cons]
        exact ⟨by rw [isNamePart, h.1, Bool.true_or], h.2⟩
      have hstop : rest.takeWhile isNamePart = [] ∧ rest.dropWhile isNamePart = rest := by
        cases rest with
        | nil => exact ⟨rfl, rfl⟩
        | cons d rest =>
            have hd : ¬ isNamePart d = true := by rw [hrest d rfl]; exact Bool.false_ne_true
            exact ⟨List.takeWhile_cons_of_neg hd, List.dropWhile_cons_of_neg hd⟩
      rw [key?, if_pos (show ((c :: s ++ rest).head?.any isNameStart) = true from h.1),
        List.takeWhile_append_of_pos hpart, List.dropWhile_append_of_pos hpart, hstop.1, hstop.2,
        List.append_nil]

/-- A literal as a key ends at its closing quote. -/
theorem key?_literal (name : String) (rest : List Char) :
    key? ((Text.literal name).toList ++ rest) = some (name.toList, rest) := by
  have hliteral : (Text.literal name).toList =
      '\'' :: (Text.Quoted.encode name.toList ++ ['\'']) := by
    rw [Text.literal, String.toList_ofList, List.cons_append]
  have hlength : Lexeme.string? ((Text.literal name).toList ++ rest) =
      some (Text.literal name).toList.length := by
    rw [hliteral, List.cons_append, List.append_assoc, List.singleton_append, Lexeme.string?,
      if_pos (by decide), Expression.quotedRest_encode rest (by simp), Option.map_some]
    simp [Nat.add_comm]
  have hhead : ¬ ((Text.literal name).toList ++ rest).head?.any isNameStart = true := by
    rw [hliteral, List.cons_append, List.head?_cons, Option.any_some, isNameStart_quote]
    exact Bool.false_ne_true
  rw [key?, if_neg hhead, hlength, Option.bind_some, List.take_left, List.drop_left,
    Expression.text?_literal, Option.map_some]

/-- The key of a prop denotes the name of the prop. -/
theorem key?_propKey (name : String) (hrest : ∀ c ∈ rest.head?, isNamePart c = false) :
    key? ((propKey name).toList ++ rest) = some (name.toList, rest) := by
  unfold propKey
  split
  · next h => exact key?_of_isName h hrest
  · exact key?_literal name rest

/-- An entry is read as the name and the value that it is written from. -/
theorem readPair?_entry (name value : String) :
    readPair? (propKey name ++ ": " ++ value) = some (name, value) := by
  have hentry : (propKey name ++ ": " ++ value).toList =
      (propKey name).toList ++ ([':', ' '] ++ value.toList) := by
    rw [String.toList_append, String.toList_append, List.append_assoc]
    rfl
  have hstop : ∀ c ∈ ([':', ' '] ++ value.toList).head?, isNamePart c = false := by
    intro c hc
    cases hc
    decide
  rw [readPair?, hentry, key?_propKey name hstop]
  simp only [Option.bind_eq_bind, Option.bind_some, Text.Search.dropStart?_append]
  rw [String.ofList_toList, String.ofList_toList]

/-- A bare key, and one that is quoted since it is no name. -/
example : [propKey "onClick", propKey "data-it's"] = ["onClick", "'data-it\\'s'"] := by
  decide +kernel

end Suite

end Trellis
