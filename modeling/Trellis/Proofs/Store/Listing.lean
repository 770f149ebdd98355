import Trellis.Proofs.Path.Components
import Trellis.Proofs.Store.Walk

/-! # Stores as on a disk

What a store has in common with the directories of a disk.

* `Store.IsEntryName` says that a text can be a name in a directory, and `Store.IsListed` that a
  store has such names only and nothing twice. A directory of it then has distinct names
  (`Store.IsListed.nodup_children`).
* `Store.locate_follow`: a file that is found without following links is found with it. -/

namespace Trellis.Store

/-! ### Names in directories -/

/-- Whether a text can be a name in a directory. -/
structure IsEntryName (name : String) : Prop where
  /-- A name is no empty text. -/
  ne_empty : name ≠ ""
  /-- The directory itself has no name in it. -/
  ne_dot : name ≠ "."
  /-- Nor has the one above it. -/
  ne_up : name ≠ ".."
  /-- No separator stands in a name. -/
  noSlash : '/' ∉ name.toList

/-- Whether all that stands in a store has names, and at each place stands one thing. -/
structure IsListed (s : Store) : Prop where
  /-- At each place stands one thing. -/
  nodup : (s.entries.map (·.1)).Nodup
  /-- Places consist of names. -/
  names : ∀ e ∈ s.entries, ∀ name ∈ e.1, IsEntryName name

/-- A name in a directory is a component. -/
theorem IsEntryName.componentOf? {name : String} (h : IsEntryName name) :
    Path.componentOf? name.toList = some (.normal name) := by
  have hnil : name.toList ≠ [] := fun heq => h.ne_empty (String.toList_eq_nil_iff.mp heq)
  have hdot : name.toList ≠ ['.'] := fun heq => h.ne_dot (String.toList_inj.mp heq)
  have hup : name.toList ≠ ['.', '.'] := fun heq => h.ne_up (String.toList_inj.mp heq)
  simp [Path.componentOf?, hnil, hdot, hup]

theorem IsEntryName.components_join {name : String} (h : IsEntryName name) (dir : Path) :
    (dir.join ⟨name⟩).components = dir.components ++ [.normal name] :=
  Path.components_join_name dir (fun _ hc heq => h.noSlash (heq ▸ hc)) h.componentOf?

/-- What is in a directory by its last name stands there under this name. -/
theorem place_of_child {place : Place} {e : Place × Entry} {name : String}
    (h : (match e.1.getLast? with
      | some n => if e.1 = place ++ [n] then some n else none
      | none => none) = some name) : e.1 = place ++ [name] := by
  split at h
  · split at h
    · cases h
      assumption
    · cases h
  · cases h

theorem IsListed.isEntryName {s : Store} (hs : s.IsListed) {place : Place} {name : String}
    (h : name ∈ s.children place) : IsEntryName name := by
  obtain ⟨e, he, hchild⟩ := List.mem_filterMap.mp h
  refine hs.names e he name ?_
  rw [place_of_child hchild]
  exact List.mem_append_right place (List.mem_singleton_self name)

/-- No two things stand under one name. -/
theorem IsListed.nodup_children {s : Store} (hs : s.IsListed) (place : Place) :
    (s.children place).Nodup := by
  rw [children, List.Nodup, List.pairwise_filterMap]
  refine (List.pairwise_map.mp hs.nodup).imp fun hne name hname name' hname' heq => hne ?_
  rw [place_of_child hname, place_of_child hname', heq]

/-! ### Files -/

theorem Leads.follow {s : Store} {fuel links : Nat} {here place : Place} {rest : List String}
    {c : Content} (h : s.Leads false fuel links here rest (.at place (.file c))) :
    s.Leads true fuel links here rest (.at place (.file c)) := by
  generalize hl : Located.at place (.file c) = l at h
  induction h with
  | here => cases hl
  | dot _ ih => exact .dot (ih hl)
  | up _ ih => exact .up (ih hl)
  | free => cases hl
  | down hname hget _ ih => exact .down hname hget (ih hl)
  | file hname hget => exact .file hname hget
  | link => cases hl
  | jump hname hget _ htext _ ih => exact .jump hname hget (Bool.and_false _) htext (ih hl)

/-- A path that leads to a file leads there also if links at its end are followed. -/
theorem locate_follow {s : Store} {p : Path} {place : Place} {c : Content}
    (h : s.locate false p = .ok (.at place (.file c))) :
    s.locate true p = .ok (.at place (.file c)) := by
  obtain ⟨hpath, hleads⟩ := locate_ok_iff.mp h
  exact locate_ok_iff.mpr ⟨hpath, hleads.follow⟩

end Trellis.Store
