import Trellis.Fault
import Trellis.Path

/-! # The file store

Files, directories and symbolic links, each at one place.

* `Place` is where something stands: the names of the directories down to it. `Store.get?` is what
  stands there; the root is always a directory.
* `Store.put` and `Store.erase` change one place and leave all others as they are. -/

namespace Trellis

/-- What a file holds. -/
inductive Content where
  /-- A text. -/
  | text (s : String)
  /-- Bytes that are no text. -/
  | binary (bytes : List UInt8)
  deriving DecidableEq, Repr

namespace Content

/-- What bytes make: a text, if they are one. -/
def ofBytes (bytes : List UInt8) : Content :=
  match String.fromUTF8? ⟨bytes.toArray⟩ with
  | some s => text s
  | none => binary bytes

/-- The number of bytes. -/
def size : Content → Nat
  | text s => s.utf8ByteSize
  | binary bytes => bytes.length

/-- The bytes. -/
def bytes : Content → List UInt8
  | text s => s.toUTF8.toList
  | binary bytes => bytes

/-- One content after another. -/
def append (a b : Content) : Content := ofBytes (a.bytes ++ b.bytes)

/-- The text, if it is one. -/
def text? : Content → Option String
  | text s => some s
  | binary _ => none

end Content

/-- Where something stands: names from the root down. -/
abbrev Place := List String

/-- What stands at a place. -/
inductive Entry where
  /-- A file. -/
  | file (content : Content)
  /-- A directory. -/
  | directory
  /-- A symbolic link. -/
  | link (target : Path)
  deriving DecidableEq, Repr

/-- A file store, with the directory from which relative paths are taken. -/
structure Store where
  /-- What stands where. -/
  entries : List (Place × Entry)
  /-- The directory from which relative paths are taken. -/
  cwd : Place
  deriving Repr

namespace Store

/-- What stands at a place. -/
def get? (s : Store) (place : Place) : Option Entry :=
  if place = [] then some .directory else s.entries.lookup place

/-- Puts something at a place in a list of entries. -/
def putEntry (place : Place) (e : Entry) : List (Place × Entry) → List (Place × Entry)
  | [] => [(place, e)]
  | (p, old) :: rest => if p = place then (p, e) :: rest else (p, old) :: putEntry place e rest

/-- Puts something at a place. -/
def put (s : Store) (place : Place) (e : Entry) : Store :=
  { s with entries := putEntry place e s.entries }

/-- Takes away what stands at a place. -/
def erase (s : Store) (place : Place) : Store :=
  { s with entries := s.entries.filter (·.1 ≠ place) }

/-- Takes away a place and everything below it. -/
def eraseTree (s : Store) (place : Place) : Store :=
  { s with entries := s.entries.filter fun e => !place.isPrefixOf e.1 }

/-- The names directly below a place. -/
def children (s : Store) (place : Place) : List String :=
  s.entries.filterMap fun e =>
    match e.1.getLast? with
    | some name => if e.1 = place ++ [name] then some name else none
    | none => none

/-- The number of bytes in all files. -/
def totalSize (s : Store) : Nat :=
  s.entries.foldl (fun n e =>
    match e.2 with
    | .file c => n + c.size
    | _ => n) 0

/-! ### Laws -/

theorem lookup_putEntry_self (place : Place) (e : Entry) (es : List (Place × Entry)) :
    (putEntry place e es).lookup place = some e := by
  induction es with
  | nil => simp [putEntry]
  | cons head rest ih =>
    obtain ⟨p, old⟩ := head
    by_cases h : p = place
    · simp [putEntry, h]
    · have h' : (place == p) = false := by simp [Ne.symm h]
      simp [putEntry, h, List.lookup_cons, h', ih]

theorem lookup_putEntry_of_ne {place other : Place} (h : other ≠ place) (e : Entry)
    (es : List (Place × Entry)) :
    (putEntry place e es).lookup other = es.lookup other := by
  induction es with
  | nil =>
    have h' : (other == place) = false := by simp [h]
    simp [putEntry, List.lookup_cons, h']
  | cons head rest ih =>
    obtain ⟨p, old⟩ := head
    by_cases hp : p = place
    · have h' : (other == p) = false := by simp [hp, h]
      simp [putEntry, hp, List.lookup_cons, hp ▸ h']
    · simp [putEntry, hp, List.lookup_cons, ih]

theorem mem_entries_of_get? {s : Store} {place : Place} {e : Entry} (hplace : place ≠ [])
    (h : s.get? place = some e) : (place, e) ∈ s.entries := by
  rw [get?, if_neg hplace] at h
  obtain ⟨before, after, heq, _⟩ := List.lookup_eq_some_iff.mp h
  rw [heq]
  exact List.mem_append_right _ List.mem_cons_self

theorem cwd_put (s : Store) (place : Place) (e : Entry) : (s.put place e).cwd = s.cwd := rfl

theorem get?_put_self {s : Store} {place : Place} (h : place ≠ []) (e : Entry) :
    (s.put place e).get? place = some e := by
  simp [get?, put, h, lookup_putEntry_self]

theorem get?_put_of_ne {s : Store} {place other : Place} (h : other ≠ place) (e : Entry) :
    (s.put place e).get? other = s.get? other := by
  simp only [get?, put]
  split
  · rfl
  · exact lookup_putEntry_of_ne h e s.entries

end Store

end Trellis
