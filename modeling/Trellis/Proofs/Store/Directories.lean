import Mathlib.Data.List.Induction
import Trellis.Proofs.Store.Walk

/-! # Making directories

What making directories does to a store: some of its free places become directories.

* `Store.Extends` says this of two stores. Whatever a path leads to in the first, it leads to in
  the second (`Extends.locate_at`), and every file of the second is one of the first.
* `Store.SameFiles` says that two stores hold the same files, as a store and what extends it do.
* `Store.createDirectories_extends`: making directories extends a store, also when it fails.
* A path may lead further in the second store than in the first, and by `..` even to an old file.
  `Extends.read_back` excludes this for paths and links that never go up, in a store whose entries
  all stand in directories. -/

namespace Trellis

namespace Store

/-- A store with more directories, and nothing else changed. -/
structure Extends (s s' : Store) : Prop where
  /-- Relative paths are taken from the same directory. -/
  cwd_eq : s'.cwd = s.cwd
  /-- Every place is as it was, or a directory where nothing was. -/
  get?_eq : ∀ place, s'.get? place = s.get? place ∨
    (s.get? place = none ∧ s'.get? place = some .directory)

namespace Extends

variable {s s' s'' : Store}

theorem refl (s : Store) : s.Extends s := ⟨rfl, fun _ => .inl rfl⟩

theorem trans (h : s.Extends s') (h' : s'.Extends s'') : s.Extends s'' := by
  refine ⟨h'.cwd_eq.trans h.cwd_eq, fun place => ?_⟩
  rcases h.get?_eq place with e | ⟨hn, hd⟩
  · rcases h'.get?_eq place with e' | ⟨hn', hd'⟩
    · exact .inl (e'.trans e)
    · exact .inr ⟨e ▸ hn', hd'⟩
  · rcases h'.get?_eq place with e' | ⟨hn', _⟩
    · exact .inr ⟨hn, e'.trans hd⟩
    · rw [hd] at hn'
      cases hn'

theorem put_directory {place : Place} (h : s.get? place = none) (hp : place ≠ []) :
    s.Extends (s.put place .directory) := by
  refine ⟨rfl, fun other => ?_⟩
  by_cases ho : other = place
  · subst ho
    exact .inr ⟨h, get?_put_self hp _⟩
  · exact .inl (get?_put_of_ne ho _)

/-- What stands in the first store stands in the second. -/
theorem get?_of_some (h : s.Extends s') {place : Place} {e : Entry} (he : s.get? place = some e) :
    s'.get? place = some e := by
  rcases h.get?_eq place with e' | ⟨hn, _⟩
  · rw [e', he]
  · rw [hn] at he
    cases he

/-- What is no directory in the second store stands in the first. -/
theorem get?_back (h : s.Extends s') {place : Place} {e : Entry} (he : s'.get? place = some e)
    (hd : e ≠ .directory) : s.get? place = some e := by
  rcases h.get?_eq place with e' | ⟨_, hdir⟩
  · rw [← e', he]
  · rw [hdir] at he
    exact absurd (Option.some.inj he).symm hd

theorem leads_at (h : s.Extends s') {follow : Bool} {fuel links : Nat} {here place : Place}
    {rest : List String} {e : Entry} (hl : s.Leads follow fuel links here rest (.at place e)) :
    s'.Leads follow fuel links here rest (.at place e) := by
  generalize hr : Located.at place e = l at hl ⊢
  induction hl with
  | here => exact .here
  | dot _ ih => exact .dot (ih hr)
  | up _ ih => exact .up (ih hr)
  | free => cases hr
  | down hname hget _ ih => exact .down hname (h.get?_of_some hget) (ih hr)
  | file hname hget => exact .file hname (h.get?_of_some hget)
  | link hname hget hfollow => exact .link hname (h.get?_of_some hget) hfollow
  | jump hname hget hend htext _ ih =>
      exact .jump hname (h.get?_of_some hget) hend htext (ih hr)

/-- A path leads to what it led to before. -/
theorem locate_at (h : s.Extends s') {follow : Bool} {p : Path} {place : Place} {e : Entry}
    (hl : s.locate follow p = .ok (.at place e)) : s'.locate follow p = .ok (.at place e) := by
  obtain ⟨hp, hl⟩ := locate_ok_iff.mp hl
  refine locate_ok_iff.mpr ⟨hp, ?_⟩
  rw [start, h.cwd_eq]
  exact h.leads_at hl

/-- What is read at a path is read there still. -/
theorem read_ok (h : s.Extends s') {p : Path} {c : Content} (hr : s.read p = .ok c) :
    s'.read p = .ok c := by
  obtain ⟨place, hl⟩ := read_ok_iff.mp hr
  exact read_ok_iff.mpr ⟨place, h.locate_at hl⟩

end Extends

/-! ### Files -/

/-- Whether two stores hold the same files. -/
def SameFiles (s s' : Store) : Prop :=
  ∀ place c, s'.get? place = some (.file c) ↔ s.get? place = some (.file c)

theorem SameFiles.refl (s : Store) : s.SameFiles s := fun _ _ => Iff.rfl

theorem Extends.sameFiles {s s' : Store} (h : s.Extends s') : s.SameFiles s' :=
  fun _ _ => ⟨fun he => h.get?_back he (by simp), h.get?_of_some⟩

/-! ### Making directories extends a store -/

theorem ensureDirectory_extends (s : Store) (p : Path) : s.Extends (s.ensureDirectory p).1 := by
  unfold ensureDirectory
  split
  · rename_i s' h
    obtain ⟨place, hget, hp, rfl⟩ := create_ok h
    exact .put_directory hget hp
  · exact .refl s

theorem createDirectoriesWithin_extends (n : Nat) (s : Store) (p : Path) :
    s.Extends (s.createDirectoriesWithin n p).1 := by
  induction n generalizing s p with
  | zero => exact .refl s
  | succ n ih =>
      unfold createDirectoriesWithin
      split
      · exact .refl s
      · have hs := ensureDirectory_extends s p
        split
        · rename_i s₁ h₁
          rw [h₁] at hs
          split
          · exact hs
          · rename_i parent hparent
            have hs₁ := ih s₁ parent
            split
            · rename_i s₂ h₂
              rw [h₂] at hs₁
              exact (hs.trans hs₁).trans (ensureDirectory_extends s₂ p)
            · rename_i s₂ e h₂
              rw [h₂] at hs₁
              exact hs.trans hs₁
        · rename_i s₁ result h₁
          rw [h₁] at hs
          exact hs

theorem createDirectories_extends (s : Store) (p : Path) : s.Extends (s.createDirectories p).1 :=
  createDirectoriesWithin_extends _ s p

/-! ### Paths that never go up -/

/-- Whether everything in a store stands in a directory. -/
def IsTree (s : Store) : Prop :=
  ∀ place e, s.get? place = some e → s.get? place.dropLast = some .directory

/-- Whether no link of a store goes up. -/
def LinksGoDown (s : Store) : Prop :=
  ∀ place target, s.get? place = some (.link target) → ".." ∉ steps target.text

/-- Nothing stands below a free place. -/
theorem IsTree.get?_below {s : Store} (tree : s.IsTree) {place : Place} (h : s.get? place = none)
    (below : Place) : s.get? (place ++ below) = none := by
  induction below using List.reverseRecOn with
  | nil => rw [List.append_nil, h]
  | append_singleton below name ih =>
      cases he : s.get? (place ++ (below ++ [name])) with
      | none => rfl
      | some e =>
          have hd := tree _ _ he
          rw [← List.append_assoc, List.dropLast_concat, ih] at hd
          cases hd

namespace Extends

variable {s s' : Store}

/-- A walk that never goes up finds no file below a new directory. -/
theorem not_file_below (h : s.Extends s') {follow : Bool} {fuel links : Nat} {here : Place}
    {rest : List String} {l : Located} (hl : s'.Leads follow fuel links here rest l)
    (hfree : ∀ below, s.get? (here ++ below) = none) (hup : ".." ∉ rest) (place : Place)
    (c : Content) : l ≠ .at place (.file c) := by
  induction hl with
  | here => simp
  | dot _ ih => exact ih hfree fun hm => hup (List.mem_cons_of_mem _ hm)
  | up => exact absurd List.mem_cons_self hup
  | free => simp
  | @down _ _ _ name _ _ _ _ _ ih =>
      refine ih (fun below => ?_) fun hm => hup (List.mem_cons_of_mem _ hm)
      rw [List.append_assoc]
      exact hfree _
  | @file _ _ _ name _ _ hget =>
      have hold := h.get?_back hget (by simp)
      rw [hfree [name]] at hold
      cases hold
  | link => simp
  | @jump _ _ _ name _ _ _ _ hget =>
      have hold := h.get?_back hget (by simp)
      rw [hfree [name]] at hold
      cases hold

/-- A walk that never goes up leads to no file to which it did not lead before. -/
theorem leads_back (h : s.Extends s') (tree : s.IsTree) (down : s.LinksGoDown) {follow : Bool}
    {fuel links : Nat} {here place : Place} {rest : List String} {c : Content}
    (hl : s'.Leads follow fuel links here rest (.at place (.file c))) (hup : ".." ∉ rest) :
    s.Leads follow fuel links here rest (.at place (.file c)) := by
  generalize hr : Located.at place (.file c) = l at hl ⊢
  induction hl with
  | here => cases hr
  | dot _ ih => exact .dot (ih (fun hm => hup (List.mem_cons_of_mem _ hm)) hr)
  | up => exact absurd List.mem_cons_self hup
  | free => cases hr
  | down hname hget hl ih =>
      have hup' := fun hm => hup (List.mem_cons_of_mem _ hm)
      -- Below a directory that is new nothing is found, so the walk came through an old one.
      rcases h.get?_eq _ with e | ⟨hnew, _⟩
      · exact .down hname (e ▸ hget) (ih hup' hr)
      · exact absurd hr.symm (h.not_file_below hl (tree.get?_below hnew) hup' place c)
  | file hname hget => exact .file hname (h.get?_back hget (by simp))
  | link => cases hr
  | jump hname hget hend htext _ ih =>
      have hold := h.get?_back hget (by simp)
      refine .jump hname hold hend htext (ih (fun hm => ?_) hr)
      rcases List.mem_append.mp hm with hm | hm
      · exact down _ _ hold hm
      · exact hup (List.mem_cons_of_mem _ hm)

/-- What is read at a path that never goes up was read there before. -/
theorem read_back (h : s.Extends s') (tree : s.IsTree) (down : s.LinksGoDown) {p : Path}
    (hup : ".." ∉ steps p.text) {c : Content} (hr : s'.read p = .ok c) : s.read p = .ok c := by
  obtain ⟨place, hl⟩ := read_ok_iff.mp hr
  obtain ⟨hp, hl⟩ := locate_ok_iff.mp hl
  refine read_ok_iff.mpr ⟨place, locate_ok_iff.mpr ⟨hp, ?_⟩⟩
  rw [start, h.cwd_eq] at hl
  refine h.leads_back tree down hl fun hm => ?_
  rcases List.mem_append.mp hm with hm | hm
  · exact hup hm
  · split at hm
    · simp at hm
    · cases hm

end Extends

end Store

end Trellis
