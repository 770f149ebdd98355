import Trellis.Text.Blank

/-! # Attributes of markup elements

The attributes of one element as written in its tag.

* An attribute's value is a static text, a flag, or an expression kept as its source text.
* `Attributes.insert` replaces the value of a name that is present already, and keeps its place,
  so the names of a list of attributes are pairwise distinct.
* `Attributes.text` is the static value that a reader of the rendered page would notice: trimmed,
  and absent when nothing is left. -/

namespace Trellis

/-- The value of an attribute. -/
inductive AttributeValue where
  /-- A static text. -/
  | text (s : String)
  /-- A truth value. -/
  | flag (b : Bool)
  /-- Any other expression, as it is written. -/
  | expression (s : String)
  deriving DecidableEq, Repr

/-- The attributes of an element, in order of their first occurrence. -/
structure Attributes where
  /-- Names and values. -/
  entries : List (String × AttributeValue)
  deriving DecidableEq, Repr

namespace Attributes

/-- No attributes. -/
def empty : Attributes := ⟨[]⟩

/-- Sets the value of a name in a list of entries. -/
def insertEntry (name : String) (value : AttributeValue) :
    List (String × AttributeValue) → List (String × AttributeValue)
  | [] => [(name, value)]
  | (n, v) :: rest =>
    if n = name then (n, value) :: rest else (n, v) :: insertEntry name value rest

/-- Sets the value of a name. -/
def insert (a : Attributes) (name : String) (value : AttributeValue) : Attributes :=
  ⟨insertEntry name value a.entries⟩

/-- The value of a name in a list of entries. -/
def lookup (name : String) : List (String × AttributeValue) → Option AttributeValue
  | [] => none
  | (n, v) :: rest => if n = name then some v else lookup name rest

/-- The value of a name. -/
def get? (a : Attributes) (name : String) : Option AttributeValue := lookup name a.entries

/-- Whether a name has a value. -/
def contains (a : Attributes) (name : String) : Bool := (a.get? name).isSome

/-- The static text of a name, trimmed; absent when it is blank or no static text. -/
def text (a : Attributes) (name : String) : Option String :=
  match a.get? name with
  | some (.text s) => if Text.isBlankText s then none else some (Text.trim s)
  | _ => none

/-- The names, in order. -/
def names (a : Attributes) : List String := a.entries.map Prod.fst

/-- The attributes that a list of insertions leaves. -/
def ofList (entries : List (String × AttributeValue)) : Attributes :=
  entries.foldl (fun a e => a.insert e.1 e.2) empty

theorem lookup_insertEntry_self (name : String) (value : AttributeValue)
    (entries : List (String × AttributeValue)) :
    lookup name (insertEntry name value entries) = some value := by
  induction entries with
  | nil => simp [insertEntry, lookup]
  | cons e rest ih =>
    obtain ⟨n, v⟩ := e
    by_cases h : n = name <;> simp [insertEntry, lookup, h, ih]

theorem lookup_insertEntry_of_ne {name other : String} (h : other ≠ name) (value : AttributeValue)
    (entries : List (String × AttributeValue)) :
    lookup other (insertEntry name value entries) = lookup other entries := by
  induction entries with
  | nil => simp [insertEntry, lookup, h.symm]
  | cons e rest ih =>
    obtain ⟨n, v⟩ := e
    by_cases hn : n = name
    · subst hn; simp [insertEntry, lookup, h.symm]
    · simp [insertEntry, lookup, hn, ih]

@[simp] theorem get?_insert_self (a : Attributes) (name : String) (value : AttributeValue) :
    (a.insert name value).get? name = some value :=
  lookup_insertEntry_self name value a.entries

theorem get?_insert_of_ne (a : Attributes) {name other : String} (h : other ≠ name)
    (value : AttributeValue) : (a.insert name value).get? other = a.get? other :=
  lookup_insertEntry_of_ne h value a.entries

end Attributes

end Trellis
