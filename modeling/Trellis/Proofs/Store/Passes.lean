import Trellis.Proofs.Store.Grown
import Trellis.Proofs.Store.Parents

/-! # What a path passes

The places that are looked at on the way of a path, and stores that differ at one place only.

* `Store.Looks` has one case per step of a walk at which a place is looked at, whether or not the walk
  succeeds. `Store.Passes` says that the way of a path looks at a place.
* `Store.locate_congr`: what a path leads to depends on the places that it passes.
* `Store.SameBut` says that two stores are the same but for one place. Paths that do not pass the
  place lead to the same in both, directories are made alike (`SameBut.createDirectories`), and what
  does not lead to the place is read alike (`SameBut.readsAlike`). -/

namespace Trellis

namespace Store

/-! ### The places on a way -/

/-- Whether a walk looks at a place: the steps down to it, with the bounds on steps and links that are
still allowed. -/
inductive Looks (s : Store) (follow : Bool) : Nat → Nat → Place → List String → Place → Prop
  | here {fuel links : Nat} {here : Place} {name : String} {rest : List String} :
      IsName name → Looks s follow (fuel + 1) links here (name :: rest) (here ++ [name])
  | dot {fuel links : Nat} {here y : Place} {rest : List String} :
      Looks s follow fuel links here rest y →
      Looks s follow (fuel + 1) links here ("." :: rest) y
  | up {fuel links : Nat} {here y : Place} {rest : List String} :
      Looks s follow fuel links here.dropLast rest y →
      Looks s follow (fuel + 1) links here (".." :: rest) y
  | down {fuel links : Nat} {here y : Place} {name : String} {rest : List String} :
      IsName name → s.get? (here ++ [name]) = some .directory →
      Looks s follow fuel links (here ++ [name]) rest y →
      Looks s follow (fuel + 1) links here (name :: rest) y
  | jump {fuel links : Nat} {here y : Place} {name : String} {rest : List String}
      {target : Path} :
      IsName name → s.get? (here ++ [name]) = some (.link target) →
      (rest = [] && !follow) = false → target.text ≠ "" →
      Looks s follow fuel links (if target.isAbsolute then [] else here)
        (steps target.text ++ rest) y →
      Looks s follow (fuel + 1) (links + 1) here (name :: rest) y

section looks
variable {s t : Store} {follow : Bool} {fuel links : Nat} {here y : Place} {rest : List String}

/-- With more directories a walk looks at no fewer places. -/
theorem Looks.of_extends (h : s.Extends t) (hy : s.Looks follow fuel links here rest y) :
    t.Looks follow fuel links here rest y := by
  induction hy with
  | here hname => exact .here hname
  | dot _ ih => exact .dot ih
  | up _ ih => exact .up ih
  | down hname hget _ ih => exact .down hname (h.get?_of_some hget) ih
  | jump hname hget hend htext _ ih => exact .jump hname (h.get?_of_some hget) hend htext ih

/-- A walk that goes on looks at no fewer places. -/
theorem Looks.append (hy : s.Looks follow fuel links here rest y) (more : List String) :
    s.Looks true fuel links here (rest ++ more) y := by
  induction hy with
  | here hname => exact .here hname
  | dot _ ih => exact .dot ih
  | up _ ih => exact .up ih
  | down hname hget _ ih => exact .down hname hget ih
  | jump hname hget _ htext _ ih =>
      rw [List.append_assoc] at ih
      exact .jump hname hget (by simp) htext ih

/-- A walk looks at the place for a file to which it leads. -/
theorem Leads.looks {l : Located} (h : s.Leads follow fuel links here rest l)
    (htakes : l.Takes y) : s.Looks follow fuel links here rest y := by
  induction h with
  | here => cases htakes
  | dot _ ih => exact .dot (ih htakes)
  | up _ ih => exact .up (ih htakes)
  | free hname _ =>
      cases htakes
      exact .here hname
  | down hname hget _ ih => exact .down hname hget (ih htakes)
  | file hname _ =>
      cases htakes
      exact .here hname
  | link => cases htakes
  | jump hname hget hend htext _ ih => exact .jump hname hget hend htext (ih htakes)

/-- Where no entry is a link there is none at any place. -/
theorem get?_ne_link (h : ∀ e ∈ s.entries, ∀ target, e.2 ≠ .link target) (x : Place)
    (target : Path) : s.get? x ≠ some (.link target) := by
  intro hget
  by_cases hx : x = []
  · subst hx
    cases hget
  · exact h _ (mem_entries_of_get? hx hget) target rfl

/-- A walk in a store without links looks at the names of its steps only. -/
theorem Looks.exists_name (hlinks : ∀ x target, s.get? x ≠ some (.link target))
    (hy : s.Looks follow fuel links here rest y) : ∃ x name, name ∈ rest ∧ y = x ++ [name] := by
  induction hy with
  | here => exact ⟨_, _, List.mem_cons_self, rfl⟩
  | dot _ ih =>
      obtain ⟨x, name, hname, heq⟩ := ih
      exact ⟨x, name, List.mem_cons_of_mem _ hname, heq⟩
  | up _ ih =>
      obtain ⟨x, name, hname, heq⟩ := ih
      exact ⟨x, name, List.mem_cons_of_mem _ hname, heq⟩
  | down _ _ _ ih =>
      obtain ⟨x, name, hname, heq⟩ := ih
      exact ⟨x, name, List.mem_cons_of_mem _ hname, heq⟩
  | jump _ hget => exact absurd hget (hlinks _ _)

theorem lookAt_congr {name : String} (hname : IsName name)
    (ih : ∀ {links : Nat} {here : Place} {rest : List String},
      (∀ y, s.Looks follow fuel links here rest y → t.get? y = s.get? y) →
        t.walk follow fuel links here rest = s.walk follow fuel links here rest)
    (h : ∀ y, s.Looks follow (fuel + 1) links here (name :: rest) y → t.get? y = s.get? y) :
    t.lookAt follow fuel links here name rest = s.lookAt follow fuel links here name rest := by
  unfold lookAt
  rw [h _ (.here hname)]
  cases hget : s.get? (here ++ [name]) with
  | none => rfl
  | some e =>
      cases e with
      | file c => rfl
      | directory => exact ih fun y hy => h y (.down hname hget hy)
      | link target =>
          dsimp only
          split
          · rfl
          · rename_i hend
            cases links with
            | zero => rfl
            | succ links =>
                dsimp only
                split
                · rfl
                · rename_i htext
                  exact ih fun y hy =>
                    h y (.jump hname hget (Bool.eq_false_iff.mpr hend) htext hy)

/-- A walk depends on the places that it looks at. -/
theorem walk_congr (h : ∀ y, s.Looks follow fuel links here rest y → t.get? y = s.get? y) :
    t.walk follow fuel links here rest = s.walk follow fuel links here rest := by
  induction fuel generalizing links here rest with
  | zero => rfl
  | succ fuel ih =>
      cases rest with
      | nil => rfl
      | cons name rest =>
          by_cases hdot : name = "."
          · subst hdot
            exact ih fun y hy => h y (.dot hy)
          · by_cases hup : name = ".."
            · subst hup
              exact ih fun y hy => h y (.up hy)
            · by_cases hsize : nameLimit < name.utf8ByteSize
              · rw [walk, walk, if_neg hdot, if_neg hup, if_pos hsize, if_neg hdot, if_neg hup,
                  if_pos hsize]
              · have hname : IsName name := ⟨hdot, hup, Nat.le_of_not_lt hsize⟩
                rw [walk_name _ _ _ _ _ _ hname, walk_name _ _ _ _ _ _ hname]
                exact lookAt_congr hname ih h

end looks

/-- Whether the way of a path looks at a place. -/
def Passes (s : Store) (follow : Bool) (p : Path) (y : Place) : Prop :=
  IsPath p ∧ s.Looks follow stepLimit linkLimit (s.start p) (route p) y

/-! ### Making directories, step by step -/

/-- What follows once the directories above a path were made: the directory itself. -/
def thenDirectory (p : Path) (r : Store × Option FileFault) : Store × Option FileFault :=
  match r.2 with
  | none => r.1.ensureDirectory p
  | some e => (r.1, some e)

theorem thenDirectory_extends (p : Path) (r : Store × Option FileFault) :
    r.1.Extends (thenDirectory p r).1 := by
  unfold thenDirectory
  split
  · exact ensureDirectory_extends r.1 p
  · exact .refl r.1

section steps
variable {n : Nat} {s : Store} {p q : Path}

theorem createDirectoriesWithin_empty (h : p.text = "") :
    s.createDirectoriesWithin (n + 1) p = (s, none) := by
  rw [createDirectoriesWithin, if_pos h]

theorem createDirectoriesWithin_done (h : p.text ≠ "")
    (hdone : (s.ensureDirectory p).2 ≠ some .notFound) :
    s.createDirectoriesWithin (n + 1) p = s.ensureDirectory p := by
  rw [createDirectoriesWithin, if_neg h]
  split
  · rename_i heq
    rw [heq] at hdone
    exact absurd rfl hdone
  · rename_i heq
    exact heq.symm

theorem createDirectoriesWithin_root (h : p.text ≠ "")
    (hmissing : (s.ensureDirectory p).2 = some .notFound) (hparent : p.parent? = none) :
    s.createDirectoriesWithin (n + 1) p =
      ((s.ensureDirectory p).1, some (.other "failed to create whole tree")) := by
  rw [createDirectoriesWithin, if_neg h]
  split
  · rename_i heq
    rw [heq, hparent]
  · rename_i hne heq
    rw [heq] at hmissing
    exact absurd hmissing hne

theorem createDirectoriesWithin_parent (h : p.text ≠ "")
    (hmissing : (s.ensureDirectory p).2 = some .notFound) (hparent : p.parent? = some q) :
    s.createDirectoriesWithin (n + 1) p =
      thenDirectory p ((s.ensureDirectory p).1.createDirectoriesWithin n q) := by
  rw [createDirectoriesWithin, if_neg h]
  split
  · rename_i heq
    rw [heq, hparent]
    unfold thenDirectory
    dsimp only
    split <;> rename_i heq' <;> rw [heq']
  · rename_i hne heq
    rw [heq] at hmissing
    exact absurd hmissing hne

/-- A text that is no path is refused, and not for a missing name, unless it is empty. -/
theorem locate_error_of_not_isPath (h : p.text ≠ "") (hp : ¬ IsPath p) (s : Store) (follow : Bool) :
    ∃ e, s.locate follow p = .error e ∧ e ≠ .notFound := by
  unfold locate
  rw [if_neg h]
  by_cases hnul : p.text.toList.contains (Char.ofNat 0) = true
  · rw [if_pos hnul]
    exact ⟨_, rfl, by simp⟩
  · have hsize : pathLimit ≤ p.text.utf8ByteSize := by
      by_contra hsize
      exact hp ⟨h, Bool.eq_false_iff.mpr hnul, Nat.lt_of_not_le hsize⟩
    rw [if_neg hnul, if_pos hsize]
    exact ⟨_, rfl, by simp⟩

/-- A path for which a directory is missing is one that can be followed. -/
theorem isPath_of_missing (h : p.text ≠ "") (htrim : p.IsTrimmed)
    (hmissing : (s.ensureDirectory p).2 = some .notFound) : IsPath p := by
  by_contra hp
  obtain ⟨e, he, hne⟩ := locate_error_of_not_isPath h hp s false
  have hcreate : s.create p .directory = .error e := by
    rw [create, htrim, String.ofList_toList, he]
    rfl
  unfold ensureDirectory at hmissing
  rw [hcreate] at hmissing
  dsimp only at hmissing
  split at hmissing
  · cases hmissing
  · exact hne (Option.some.inj hmissing)

theorem ensureDirectory_extends_createDirectoriesWithin (n : Nat) (s : Store) (h : p.text ≠ "") :
    (s.ensureDirectory p).1.Extends (s.createDirectoriesWithin (n + 1) p).1 := by
  by_cases hmissing : (s.ensureDirectory p).2 = some .notFound
  · cases hparent : p.parent? with
    | none =>
        rw [createDirectoriesWithin_root h hmissing hparent]
        exact .refl _
    | some q =>
        rw [createDirectoriesWithin_parent h hmissing hparent]
        exact (createDirectoriesWithin_extends n _ q).trans (thenDirectory_extends p _)
  · rw [createDirectoriesWithin_done h hmissing]
    exact .refl _

end steps

section passes
variable {s t : Store} {follow : Bool} {p q : Path} {x y : Place}

theorem Passes.of_extends (h : s.Extends t) (hy : s.Passes follow p y) : t.Passes follow p y := by
  obtain ⟨hp, hy⟩ := hy
  refine ⟨hp, ?_⟩
  rw [start_congr h.cwd_eq]
  exact hy.of_extends h

/-- Following a link at the end, no fewer places are passed. -/
theorem Passes.of_follow (hy : s.Passes follow p y) : s.Passes true p y := by
  obtain ⟨hp, hy⟩ := hy
  refine ⟨hp, ?_⟩
  rw [← List.append_nil (route p)]
  exact hy.append []

/-- What is passed on the way to the directory of a path is passed on the way of the path. -/
theorem Passes.of_parent? (h : p.parent? = some q) (hp : IsPath p) (hy : s.Passes follow q y) :
    s.Passes true p y := by
  obtain ⟨hq, hy⟩ := hy
  refine ⟨hp, ?_⟩
  have hstart : s.start q = s.start p := by
    rw [start, start, Path.isAbsolute_of_parent? h hq.1]
  rcases route_of_parent? h hq.1 with ⟨more, _, hroute⟩ | ⟨_, hroute⟩
  · rw [hroute, ← hstart]
    exact hy.append more
  · -- On the way to the root nothing is passed.
    rw [hroute] at hy
    generalize hsteps : [("." : String)] = rest at hy
    cases hy with
    | here hname => exact absurd (List.cons.inj hsteps).1.symm hname.1
    | dot hy =>
        rw [← (List.cons.inj hsteps).2] at hy
        cases hy
    | up => exact absurd (List.cons.inj hsteps).1 (by decide)
    | down hname => exact absurd (List.cons.inj hsteps).1.symm hname.1
    | jump hname => exact absurd (List.cons.inj hsteps).1.symm hname.1

theorem passes_of_takes {l : Located} (hl : s.locate follow p = .ok l) (htakes : l.Takes y) :
    s.Passes follow p y := by
  obtain ⟨hp, hleads⟩ := locate_ok_iff.mp hl
  exact ⟨hp, hleads.looks htakes⟩

/-- What a path leads to depends on the places that it passes. -/
theorem locate_congr (hcwd : t.cwd = s.cwd)
    (h : ∀ y, s.Passes follow p y → t.get? y = s.get? y) :
    t.locate follow p = s.locate follow p := by
  by_cases hp : IsPath p
  · rw [locate_of_isPath hp, locate_of_isPath hp, start_congr hcwd]
    exact walk_congr fun y hy => h y ⟨hp, hy⟩
  · exact locate_of_not_isPath hp s t follow

/-! ### Stores that differ at one place -/

/-- Whether two stores are the same but for one place. -/
def SameBut (x : Place) (s t : Store) : Prop := t.erase x = s.erase x

theorem putEntry_filter_ne {x y : Place} (h : y ≠ x) (e : Entry) (es : List (Place × Entry)) :
    (putEntry y e es).filter (·.1 ≠ x) = putEntry y e (es.filter (·.1 ≠ x)) := by
  induction es with
  | nil =>
      rw [putEntry, List.filter_cons_of_pos (by simpa using h)]
      rfl
  | cons head es ih =>
      obtain ⟨z, old⟩ := head
      by_cases hzx : z = x
      · have hzy : z ≠ y := fun heq => h (heq ▸ hzx)
        rw [putEntry, if_neg hzy, List.filter_cons_of_neg (by simpa using hzx),
          List.filter_cons_of_neg (by simpa using hzx), ih]
      · rw [putEntry, List.filter_cons_of_pos (by simpa using hzx), putEntry]
        split
        · rw [List.filter_cons_of_pos (by simpa using hzx)]
        · rw [List.filter_cons_of_pos (by simpa using hzx), ih]

theorem putEntry_filter_self (x : Place) (e : Entry) (es : List (Place × Entry)) :
    (putEntry x e es).filter (·.1 ≠ x) = es.filter (·.1 ≠ x) := by
  induction es with
  | nil =>
      rw [putEntry, List.filter_cons_of_neg (by simp)]
  | cons head es ih =>
      obtain ⟨z, old⟩ := head
      rw [putEntry]
      split
      · rename_i hz
        rw [List.filter_cons_of_neg (by simpa using hz), List.filter_cons_of_neg (by simpa using hz)]
      · rename_i hz
        rw [List.filter_cons_of_pos (by simpa using hz),
          List.filter_cons_of_pos (by simpa using hz), ih]

/-- Something put at a place makes no difference elsewhere. -/
theorem sameBut_put (s : Store) (x : Place) (e : Entry) : s.SameBut x (s.put x e) := by
  unfold SameBut Store.put erase
  rw [putEntry_filter_self]

/-- Where nothing stands nothing is taken away. -/
theorem erase_of_none (h : s.get? x = none) : s.erase x = s := by
  unfold get? at h
  split at h
  · cases h
  · have hall : ∀ e ∈ s.entries, decide (e.1 ≠ x) = true := by
      intro e he
      have hne := bne_iff_ne.mp (List.lookup_eq_none_iff.mp h e he)
      exact decide_eq_true (Ne.symm hne)
    rw [erase, List.filter_eq_self.mpr hall]

/-- Whether an operation ends alike in two stores that are the same but for one place, and leaves this
place as it is. -/
structure Alike {α : Type} (x : Place) (s t : Store) (a b : Store × α) : Prop where
  /-- The result is the same. -/
  result_eq : b.2 = a.2
  /-- The stores are the same but for the place. -/
  same : a.1.SameBut x b.1
  /-- The place is as it was in the first store. -/
  left_eq : a.1.get? x = s.get? x
  /-- The place is as it was in the second store. -/
  right_eq : b.1.get? x = t.get? x

/-- One operation after another. -/
theorem Alike.trans {α β : Type} {a b : Store × α} {c d : Store × β} (h : Alike x s t a b)
    (h' : Alike x a.1 b.1 c d) : Alike x s t c d :=
  ⟨h'.result_eq, h'.same, h'.left_eq.trans h.left_eq, h'.right_eq.trans h.right_eq⟩

namespace SameBut

theorem cwd_eq (h : s.SameBut x t) : t.cwd = s.cwd := by
  have hcwd := congrArg Store.cwd h
  exact hcwd

theorem get?_eq (h : s.SameBut x t) (hy : y ≠ x) : t.get? y = s.get? y := by
  rw [← get?_erase_of_ne hy, h, get?_erase_of_ne hy]

/-- The same is put at another place. -/
theorem put (h : s.SameBut x t) (hy : y ≠ x) (e : Entry) :
    (s.put y e).SameBut x (t.put y e) := by
  have herase (u : Store) : (u.put y e).erase x = (u.erase x).put y e := by
    unfold Store.put erase
    rw [putEntry_filter_ne hy]
  rw [SameBut, herase, herase, h]

/-- Nothing is changed. -/
theorem alike {α : Type} (h : s.SameBut x t) (r : α) : Alike x s t (s, r) (t, r) :=
  ⟨rfl, h, rfl, rfl⟩

/-- The same is put at another place. -/
theorem alike_put {α : Type} (h : s.SameBut x t) (hy : y ≠ x) (e : Entry) (r : α) :
    Alike x s t (s.put y e, r) (t.put y e, r) :=
  ⟨rfl, h.put hy e, get?_put_of_ne (Ne.symm hy) e, get?_put_of_ne (Ne.symm hy) e⟩

/-- A path that does not pass the place leads to the same. -/
theorem locate_eq (h : s.SameBut x t) (hx : ¬ s.Passes follow p x) :
    t.locate follow p = s.locate follow p := by
  refine locate_congr h.cwd_eq fun y hy => h.get?_eq ?_
  rintro rfl
  exact hx hy

theorem isDirectory_eq (h : s.SameBut x t) (hx : ¬ s.Passes true p x) :
    t.isDirectory p = s.isDirectory p := by
  unfold isDirectory entry?
  rw [h.locate_eq hx]

theorem read_eq (h : s.SameBut x t) (hx : ¬ s.Passes true p x) : t.read p = s.read p := by
  unfold read
  rw [h.locate_eq hx]

/-- The same file is written, or the write is refused for the same reason. -/
theorem write (h : s.SameBut x t) (hx : ¬ s.Passes true p x) (c : Content) :
    (∃ e, s.write p c = .error e ∧ t.write p c = .error e) ∨
      ∃ y, y ≠ x ∧ s.write p c = .ok (s.put y (.file c)) ∧
        t.write p c = .ok (t.put y (.file c)) := by
  have hl := h.locate_eq hx
  unfold Store.write
  rw [hl]
  rcases hs : s.locate true p with e | ⟨y, e⟩ | ⟨directory, name⟩
  · exact .inl ⟨e, rfl, rfl⟩
  · cases e with
    | file c' =>
        refine .inr ⟨y, ?_, rfl, rfl⟩
        rintro rfl
        exact hx (passes_of_takes hs (.file _ _))
    | directory => exact .inl ⟨_, rfl, rfl⟩
    | link target => exact .inl ⟨_, rfl, rfl⟩
  · refine .inr ⟨directory ++ [name], ?_, rfl, rfl⟩
    rintro rfl
    exact hx (passes_of_takes hs (.free _ _))

/-! ### Making directories in both -/

/-- The same directory is made. -/
theorem ensureDirectory (h : s.SameBut x t) (htrim : p.IsTrimmed)
    (hx : ¬ (s.ensureDirectory p).1.Passes true p x) :
    Alike x s t (s.ensureDirectory p) (t.ensureDirectory p) := by
  have hxs : ¬ s.Passes true p x := fun hy => hx (hy.of_extends (ensureDirectory_extends s p))
  have hl : t.locate false p = s.locate false p := h.locate_eq fun hy => hxs (Passes.of_follow hy)
  have hcreate : (∃ e, s.create p .directory = .error e ∧ t.create p .directory = .error e) ∨
      ∃ y, y ≠ x ∧ s.create p .directory = .ok (s.put y .directory) ∧
        t.create p .directory = .ok (t.put y .directory) := by
    unfold create
    rw [htrim, String.ofList_toList, hl]
    rcases hs : s.locate false p with e | ⟨y, e⟩ | ⟨directory, name⟩
    · exact .inl ⟨e, rfl, rfl⟩
    · exact .inl ⟨_, rfl, rfl⟩
    · refine .inr ⟨directory ++ [name], ?_, rfl, rfl⟩
      rintro rfl
      exact hxs (Passes.of_follow (passes_of_takes hs (.free _ _)))
  unfold Store.ensureDirectory
  rcases hcreate with ⟨e, hs, ht⟩ | ⟨y, hy, hs, ht⟩
  · rw [hs, ht, h.isDirectory_eq hxs]
    exact h.alike _
  · rw [hs, ht]
    exact h.alike_put hy .directory none

/-- The same directories are made, down to the directory of a path. -/
theorem createDirectoriesWithin (n : Nat) (h : s.SameBut x t) (htrim : p.IsTrimmed)
    (hx : ¬ (s.createDirectoriesWithin n p).1.Passes true p x) :
    Alike x s t (s.createDirectoriesWithin n p) (t.createDirectoriesWithin n p) := by
  induction n generalizing s t p with
  | zero => exact h.alike _
  | succ n ih =>
      by_cases htext : p.text = ""
      · rw [createDirectoriesWithin_empty htext, createDirectoriesWithin_empty htext]
        exact h.alike none
      · have hext := ensureDirectory_extends_createDirectoriesWithin n s htext
        have hfirst := h.ensureDirectory htrim fun hy => hx (hy.of_extends hext)
        by_cases hmissing : (s.ensureDirectory p).2 = some .notFound
        · have hmissing' : (t.ensureDirectory p).2 = some .notFound :=
            hfirst.result_eq.trans hmissing
          cases hparent : p.parent? with
          | none =>
              rw [createDirectoriesWithin_root htext hmissing hparent,
                createDirectoriesWithin_root htext hmissing' hparent]
              exact hfirst.trans (hfirst.same.alike _)
          | some q =>
              rw [createDirectoriesWithin_parent htext hmissing hparent] at hx ⊢
              rw [createDirectoriesWithin_parent htext hmissing' hparent]
              have hq : Alike x (s.ensureDirectory p).1 (t.ensureDirectory p).1
                  ((s.ensureDirectory p).1.createDirectoriesWithin n q)
                  ((t.ensureDirectory p).1.createDirectoriesWithin n q) := by
                refine ih hfirst.same (Path.isTrimmed_of_parent? hparent) fun hy => hx ?_
                exact (hy.of_extends (thenDirectory_extends p _)).of_parent? hparent
                  (isPath_of_missing htext htrim hmissing)
              refine (hfirst.trans hq).trans ?_
              unfold thenDirectory at hx ⊢
              rw [hq.result_eq]
              cases hr : ((s.ensureDirectory p).1.createDirectoriesWithin n q).2 with
              | none =>
                  rw [hr] at hx
                  exact hq.same.ensureDirectory htrim hx
              | some e => exact hq.same.alike _
        · have hmissing' : (t.ensureDirectory p).2 ≠ some .notFound := by
            rw [hfirst.result_eq]
            exact hmissing
          rw [createDirectoriesWithin_done htext hmissing,
            createDirectoriesWithin_done htext hmissing']
          exact hfirst

end SameBut

/-- Directories and links elsewhere are there in both. -/
theorem SameBut.keeps (h : s.SameBut x t) (hs : ∀ e, s.get? x = some e → ∃ c, e = .file c) :
    s.Keeps t := by
  intro y e he hfile
  rw [h.get?_eq, he]
  rintro rfl
  obtain ⟨c, rfl⟩ := hs e he
  exact hfile c rfl

theorem SameBut.symm (h : s.SameBut x t) : t.SameBut x s := Eq.symm h

/-- What does not lead to the place is read alike. -/
theorem SameBut.readsAlike (h : s.SameBut x t) (hs : ∀ e, s.get? x = some e → ∃ c, e = .file c)
    (ht : ∀ e, t.get? x = some e → ∃ c, e = .file c)
    (hp : ∀ l, s.locate true p = .ok l → ¬ l.Takes x) : s.ReadsAlike t p := by
  have hread {y : Place} {c : Content} (hl : s.locate true p = .ok (.at y (.file c))) :
      t.locate true p = .ok (.at y (.file c)) := by
    have hget := (locate_ok_iff.mp hl).2.get?_of_at (by simp)
    refine locate_file_of_keeps (h.keeps hs) h.cwd_eq hl (.file y c) ?_
    rw [h.get?_eq, hget]
    rintro rfl
    exact hp _ hl (.file _ _)
  constructor
  · rw [Bool.eq_iff_iff]
    constructor
    · intro hf
      obtain ⟨y, c, hl⟩ := isFile_iff.mp hf
      by_cases hy : y = x
      · subst hy
        obtain ⟨l, hl', htakes⟩ :=
          locate_takes_of_keeps (h.symm.keeps ht) h.cwd_eq.symm hl (.file y c) hs
        exact absurd htakes (hp l hl')
      · have hget := (locate_ok_iff.mp hl).2.get?_of_at (by simp)
        rw [h.get?_eq hy] at hget
        exact isFile_iff.mpr
          ⟨y, c, locate_file_of_keeps (h.symm.keeps ht) h.cwd_eq.symm hl (.file y c) hget⟩
    · intro hf
      obtain ⟨y, c, hl⟩ := isFile_iff.mp hf
      exact isFile_iff.mpr ⟨y, c, hread hl⟩
  · intro hf
    obtain ⟨y, c, hl⟩ := isFile_iff.mp hf
    rw [read_ok_iff.mpr ⟨y, hl⟩, read_ok_iff.mpr ⟨y, hread hl⟩]

end passes

end Store

end Trellis
