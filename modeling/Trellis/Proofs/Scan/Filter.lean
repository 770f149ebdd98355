import Trellis.Proofs.Path.Components
import Trellis.Scan.Candidate

/-! # What the filter looks at

Which parts of a path decide whether it is a candidate.

* `Path.extension?_eq_some_iff`: the extension is what follows the last dot of the file name.
* `CandidateFilter.accepts_below_iff`: a path below the root is accepted by its extension, the names
  of its directories below the root, and the name of its file. -/

namespace Trellis

/-! ### Names of files -/

namespace Text

/-- Whether a text occurs in another. -/
theorem contains_iff (s p : String) : contains s p = true ↔ p.toList <:+: s.toList := by
  unfold contains
  induction s.toList with
  | nil => simp [Search.contains]
  | cons c s ih =>
      rw [Search.contains, Bool.or_eq_true, List.isPrefixOf_iff_prefix, ih, List.infix_cons_iff]

end Text

namespace Path

variable {p q base : Path}

/-- No separator stands in a piece. -/
theorem ne_of_mem_pieces {s piece : List Char} (h : piece ∈ pieces s) : ∀ c ∈ piece, c ≠ '/' := by
  unfold pieces at h
  induction s generalizing piece with
  | nil =>
      rw [Text.Search.splitWhere, List.mem_singleton] at h
      rw [h]
      exact fun c hc => absurd hc List.not_mem_nil
  | cons d s ih =>
      rw [Text.Search.splitWhere.eq_2] at h
      cases hs : Text.Search.splitWhere (· = '/') s with
      | nil => exact absurd hs (Text.Search.splitWhere_ne_nil _ s)
      | cons first more =>
          rw [hs] at h ih
          dsimp only at h
          split at h
          · rcases List.mem_cons.mp h with rfl | h
            · exact fun c hc => absurd hc List.not_mem_nil
            · exact ih h
          · rename_i hd
            rcases List.mem_cons.mp h with rfl | h
            · intro c hc
              rcases List.mem_cons.mp hc with rfl | hc
              · simpa using hd
              · exact ih List.mem_cons_self c hc
            · exact ih (List.mem_cons_of_mem _ h)

/-- A name among the components is a piece of the text. -/
theorem ne_of_mem_components {name : String} (h : .normal name ∈ p.components) :
    ∀ c ∈ name.toList, c ≠ '/' := by
  rw [components, componentsOf_eq, List.mem_append] at h
  rcases h with h | h
  · unfold leading at h
    split at h <;> simp at h
  · obtain ⟨piece, hpiece, hx⟩ := List.mem_filterMap.mp h
    unfold componentOf? at hx
    split at hx
    · cases hx
    · split at hx
      · cases hx
      · cases hx
        rw [String.toList_ofList]
        exact ne_of_mem_pieces hpiece

theorem fileName?_eq_some_iff {name : String} :
    p.fileName? = some name ↔ p.components.getLast? = some (.normal name) := by
  unfold fileName?
  split
  · rename_i heq
    rw [heq, Option.some.injEq, Option.some.injEq, Component.normal.injEq]
  · rename_i hno
    constructor
    · intro h
      cases h
    · exact fun h => absurd h (hno name)

/-- A file name is split at its last dot. -/
theorem splitName?_eq_some_iff {name : String} {before after : List Char} :
    splitName? name = some (before, after) ↔
      name.toList = before ++ '.' :: after ∧ before ≠ [] ∧ ∀ c ∈ after, c ≠ '.' := by
  unfold splitName?
  dsimp only
  constructor
  · intro h
    split at h
    · rename_i rev hrev
      split at h
      · cases h
      · rename_i hne
        cases h
        have hsplit := List.takeWhile_append_dropWhile (p := fun c => decide (c ≠ '.'))
          (l := name.toList.reverse)
        rw [hrev] at hsplit
        refine ⟨?_, by simpa using hne, ?_⟩
        · have hwhole := congrArg List.reverse hsplit
          rw [List.reverse_reverse, List.reverse_append, List.reverse_cons,
            List.append_assoc] at hwhole
          exact hwhole.symm
        · intro c hc
          have hall := List.all_takeWhile (l := name.toList.reverse)
            (p := fun c => decide (c ≠ '.'))
          exact of_decide_eq_true (List.all_eq_true.mp hall c (List.mem_reverse.mp hc))
    · cases h
  · rintro ⟨hname, hne, hafter⟩
    have hrev : name.toList.reverse = after.reverse ++ '.' :: before.reverse := by
      rw [hname]
      simp
    have hpos : ∀ c ∈ after.reverse, decide (c ≠ '.') = true := fun c hc =>
      decide_eq_true (hafter c (List.mem_reverse.mp hc))
    rw [hrev, List.dropWhile_append_of_pos hpos, List.takeWhile_append_of_pos hpos]
    simp [hne]

theorem extension?_eq_some_iff {ext : String} : p.extension? = some ext ↔
    ∃ name before, p.fileName? = some name ∧
      name.toList = before ++ '.' :: ext.toList ∧ before ≠ [] ∧ ∀ c ∈ ext.toList, c ≠ '.' := by
  unfold extension?
  constructor
  · intro h
    obtain ⟨name, hname, h⟩ := Option.bind_eq_some_iff.mp h
    obtain ⟨⟨before, after⟩, hsplit, rfl⟩ := Option.map_eq_some_iff.mp h
    refine ⟨name, before, hname, ?_⟩
    rw [String.toList_ofList]
    exact splitName?_eq_some_iff.mp hsplit
  · rintro ⟨name, before, hname, hsplit⟩
    rw [hname, Option.bind_some, splitName?_eq_some_iff.mpr hsplit, Option.map_some,
      String.ofList_toList]

theorem stem_eq {name : String} {before after : List Char} (hname : p.fileName? = some name)
    (h : splitName? name = some (before, after)) : p.stem = String.ofList before := by
  rw [stem, stem?, hname, Option.map_some, h]
  rfl

/-- Whether a path lies below another. -/
def IsBelow (p base : Path) : Prop :=
  ∃ rest, rest ≠ [] ∧ p.components = base.components ++ rest

end Path

/-! ### The filter -/

namespace CandidateFilter

variable {f : CandidateFilter} {p q root : Path}

theorem inTestDir_eq (f : CandidateFilter) (p : Path) : f.inTestDir p =
    p.components.dropLast.any fun c => f.testDirNames.contains (componentText c) := by
  unfold inTestDir
  cases h : p.parent? with
  | none => rw [Path.dropLast_components_of_none h]; rfl
  | some q =>
      obtain ⟨x, hx⟩ := Path.components_of_parent? h
      rw [hx, List.dropLast_concat]

/-- Paths with the same components are accepted alike. -/
theorem accepts_congr (h : p.components = q.components) : f.accepts p root = f.accepts q root := by
  have hname {a b : Path} (hab : a.components = b.components) : a.fileName? = b.fileName? := by
    rw [Path.fileName?, Path.fileName?, hab]
  have hrel : (p.relativeTo root).components = (q.relativeTo root).components := by
    rw [Path.components_relativeTo, Path.components_relativeTo, h]
  simp only [accepts, hasExtension, Path.extension?, isTestPath, inTestDir_eq, hasTestName,
    hname h, hname hrel, hrel]

/-- A path below the root is accepted by its extension, the names of its directories below the root,
and the name of its file. -/
theorem accepts_below_iff {rest : List Path.Component} (hrest : rest ≠ [])
    (h : p.components = root.components ++ rest) : f.accepts p root = true ↔
      f.hasExtension p = true ∧ (∀ x ∈ rest.dropLast, componentText x ∉ f.testDirNames) ∧
        ∀ m ∈ f.testFileMarkers, Text.contains (p.fileName?.getD "") m = false := by
  have hrel : (p.relativeTo root).components = rest := by
    rw [Path.components_relativeTo, h, if_pos (List.prefix_append _ _), List.drop_left]
  have hname : (p.relativeTo root).fileName? = p.fileName? := by
    rw [Path.fileName?, Path.fileName?, hrel, h, List.getLast?_append_of_ne_nil _ hrest]
  rw [accepts, isTestPath, inTestDir_eq, hasTestName, hrel, hname, Bool.and_eq_true,
    Bool.not_eq_true', Bool.or_eq_false_iff, List.any_eq_false, List.any_eq_false]
  simp only [List.contains_iff_mem, Bool.not_eq_true]

/-- What is accepted has an extension. -/
theorem exists_extension (h : f.accepts p root = true) : ∃ ext, p.extension? = some ext := by
  have hextension := (Bool.and_eq_true _ _ ▸ h).1
  unfold hasExtension at hextension
  split at hextension
  · exact ⟨_, ‹_›⟩
  · cases hextension

end CandidateFilter

end Trellis
