import Trellis.Store.Access

/-! # Where paths lead

What following a path does, and what reading and writing do where it ends.

* `Store.Leads` has one case per step of a walk that succeeds; `Store.walk_ok_iff` says that these
  are all.
* `Located.Takes` says that a file can be put where a path leads: there is one already, or the name
  is free. `Leads.of_keeps` follows the path once more in a store with the same directories and
  links, as after a file was put there (`Leads.put`).
* `Store.read_of_write`: what was written at a path is read there.
* `Store.read_of_removeFile`: what is read at a path stays when a file elsewhere is taken away. -/

namespace Trellis

namespace Store

/-! ### Walks that succeed -/

/-- Whether a step goes down to a name. -/
def IsName (name : String) : Prop :=
  name ≠ "." ∧ name ≠ ".." ∧ name.utf8ByteSize ≤ nameLimit

/-- The steps of a walk, from a directory to what it leads to, with the bounds on steps and links
that are still allowed. -/
inductive Leads (s : Store) (follow : Bool) : Nat → Nat → Place → List String → Located → Prop
  | here {fuel links : Nat} {here : Place} :
      Leads s follow (fuel + 1) links here [] (.at here .directory)
  | dot {fuel links : Nat} {here : Place} {rest : List String} {l : Located} :
      Leads s follow fuel links here rest l →
      Leads s follow (fuel + 1) links here ("." :: rest) l
  | up {fuel links : Nat} {here : Place} {rest : List String} {l : Located} :
      Leads s follow fuel links here.dropLast rest l →
      Leads s follow (fuel + 1) links here (".." :: rest) l
  | free {fuel links : Nat} {here : Place} {name : String} :
      IsName name → s.get? (here ++ [name]) = none →
      Leads s follow (fuel + 1) links here [name] (.free here name)
  | down {fuel links : Nat} {here : Place} {name : String} {rest : List String} {l : Located} :
      IsName name → s.get? (here ++ [name]) = some .directory →
      Leads s follow fuel links (here ++ [name]) rest l →
      Leads s follow (fuel + 1) links here (name :: rest) l
  | file {fuel links : Nat} {here : Place} {name : String} {c : Content} :
      IsName name → s.get? (here ++ [name]) = some (.file c) →
      Leads s follow (fuel + 1) links here [name] (.at (here ++ [name]) (.file c))
  | link {fuel links : Nat} {here : Place} {name : String} {target : Path} :
      IsName name → s.get? (here ++ [name]) = some (.link target) → follow = false →
      Leads s follow (fuel + 1) links here [name] (.at (here ++ [name]) (.link target))
  | jump {fuel links : Nat} {here : Place} {name : String} {rest : List String} {target : Path}
      {l : Located} :
      IsName name → s.get? (here ++ [name]) = some (.link target) →
      (rest = [] && !follow) = false → target.text ≠ "" →
      Leads s follow fuel links (if target.isAbsolute then [] else here)
        (steps target.text ++ rest) l →
      Leads s follow (fuel + 1) (links + 1) here (name :: rest) l

/-- What a walk does at a name: it looks at what stands there. -/
def lookAt (s : Store) (follow : Bool) (fuel links : Nat) (here : Place) (name : String)
    (rest : List String) : Except FileFault Located :=
  match s.get? (here ++ [name]) with
  | none => if rest = [] then .ok (.free here name) else .error .notFound
  | some .directory => walk s follow fuel links (here ++ [name]) rest
  | some (.file c) =>
    if rest = [] then .ok (.at (here ++ [name]) (.file c)) else .error .notADirectory
  | some (.link target) =>
    if rest = [] && !follow then .ok (.at (here ++ [name]) (.link target))
    else
      match links with
      | 0 => .error .tooManyLinks
      | links + 1 =>
        if target.text = "" then .error .notFound
        else
          walk s follow fuel links (if target.isAbsolute then [] else here)
            (steps target.text ++ rest)

theorem walk_name (s : Store) (follow : Bool) (fuel links : Nat) (here : Place) {name : String}
    (rest : List String) (h : IsName name) :
    walk s follow (fuel + 1) links here (name :: rest) =
      lookAt s follow fuel links here name rest := by
  rw [walk, if_neg h.1, if_neg h.2.1, if_neg (Nat.not_lt.mpr h.2.2)]
  rfl

theorem leads_of_lookAt {s : Store} {follow : Bool} {fuel links : Nat} {here : Place}
    {name : String} {rest : List String} {l : Located} (hname : IsName name)
    (ih : ∀ {links : Nat} {here : Place} {rest : List String},
      s.walk follow fuel links here rest = .ok l → s.Leads follow fuel links here rest l)
    (h : s.lookAt follow fuel links here name rest = .ok l) :
    s.Leads follow (fuel + 1) links here (name :: rest) l := by
  unfold lookAt at h
  split at h
  case h_1 hget =>
    split at h
    · subst rest
      cases h
      exact .free hname hget
    · cases h
  case h_2 hget => exact .down hname hget (ih h)
  case h_3 c hget =>
    split at h
    · subst rest
      cases h
      exact .file hname hget
    · cases h
  case h_4 target hget =>
    split at h
    · rename_i hend
      rw [Bool.and_eq_true, decide_eq_true_eq, Bool.not_eq_eq_eq_not] at hend
      obtain ⟨rfl, hfollow⟩ := hend
      cases h
      exact .link hname hget hfollow
    · rename_i hend
      split at h
      · cases h
      · split at h
        · cases h
        · rename_i htext
          exact .jump hname hget (Bool.eq_false_iff.mpr hend) htext (ih h)

theorem leads_of_walk {s : Store} {follow : Bool} {fuel links : Nat} {here : Place}
    {rest : List String} {l : Located} (h : s.walk follow fuel links here rest = .ok l) :
    s.Leads follow fuel links here rest l := by
  induction fuel generalizing links here rest with
  | zero => cases h
  | succ fuel ih =>
      cases rest with
      | nil =>
          cases h
          exact .here
      | cons name rest =>
          by_cases hdot : name = "."
          · subst hdot
            exact .dot (ih h)
          · by_cases hup : name = ".."
            · subst hup
              exact .up (ih h)
            · by_cases hsize : nameLimit < name.utf8ByteSize
              · rw [walk, if_neg hdot, if_neg hup, if_pos hsize] at h
                cases h
              · have hname : IsName name := ⟨hdot, hup, Nat.le_of_not_lt hsize⟩
                rw [walk_name s follow fuel links here rest hname] at h
                exact leads_of_lookAt hname ih h

theorem Leads.walk {s : Store} {follow : Bool} {fuel links : Nat} {here : Place}
    {rest : List String} {l : Located} (h : s.Leads follow fuel links here rest l) :
    s.walk follow fuel links here rest = .ok l := by
  induction h with
  | here => rfl
  | dot _ ih => exact ih
  | up _ ih => exact ih
  | free hname hget =>
      rw [walk_name _ _ _ _ _ _ hname, lookAt, hget]
      rfl
  | down hname hget _ ih =>
      rw [walk_name _ _ _ _ _ _ hname, lookAt, hget]
      exact ih
  | file hname hget =>
      rw [walk_name _ _ _ _ _ _ hname, lookAt, hget]
      rfl
  | link hname hget hfollow =>
      rw [walk_name _ _ _ _ _ _ hname, lookAt, hget, hfollow]
      rfl
  | jump hname hget hend htext _ ih =>
      rw [walk_name _ _ _ _ _ _ hname, lookAt, hget]
      dsimp only
      rw [hend, if_neg Bool.false_ne_true, if_neg htext]
      exact ih

/-- What a path leads to by some steps. -/
theorem walk_ok_iff {s : Store} {follow : Bool} {fuel links : Nat} {here : Place}
    {rest : List String} {l : Located} :
    s.walk follow fuel links here rest = .ok l ↔ s.Leads follow fuel links here rest l :=
  ⟨leads_of_walk, Leads.walk⟩

namespace Leads

variable {s : Store} {follow : Bool} {fuel links : Nat} {here : Place} {rest : List String}

/-- A file or a link that a walk leads to stands in the store. -/
theorem get?_of_at {place : Place} {e : Entry} (h : s.Leads follow fuel links here rest (.at place e))
    (he : e ≠ .directory) : s.get? place = some e := by
  generalize hl : Located.at place e = l at h
  induction h with
  | here =>
      cases hl
      exact absurd rfl he
  | dot _ ih => exact ih hl
  | up _ ih => exact ih hl
  | free => cases hl
  | down _ _ _ ih => exact ih hl
  | file _ hget =>
      cases hl
      exact hget
  | link _ hget _ =>
      cases hl
      exact hget
  | jump _ _ _ _ _ ih => exact ih hl

/-- A name that a walk finds free is free. -/
theorem get?_of_free {directory : Place} {name : String}
    (h : s.Leads follow fuel links here rest (.free directory name)) :
    s.get? (directory ++ [name]) = none := by
  generalize hl : Located.free directory name = l at h
  induction h with
  | here => cases hl
  | dot _ ih => exact ih hl
  | up _ ih => exact ih hl
  | free _ hget =>
      cases hl
      exact hget
  | down _ _ _ ih => exact ih hl
  | file => cases hl
  | link => cases hl
  | jump _ _ _ _ _ ih => exact ih hl

end Leads

/-- Whether a file can be put where a path leads. -/
inductive Located.Takes : Located → Place → Prop
  | file (place : Place) (c : Content) : Takes (.at place (.file c)) place
  | free (directory : Place) (name : String) : Takes (.free directory name) (directory ++ [name])

/-- Whether a store holds the directories and links of another. -/
def Keeps (s s' : Store) : Prop :=
  ∀ {place : Place} {e : Entry}, s.get? place = some e → (∀ c, e ≠ .file c) → s'.get? place = some e

/-- A walk meets directories and links on its way, so it leads to the file that stands where it led
before. -/
theorem Leads.of_keeps {s s' : Store} (keeps : s.Keeps s') {follow : Bool} {fuel links : Nat}
    {here : Place} {rest : List String} {l : Located} (h : s.Leads follow fuel links here rest l)
    {place : Place} (hl : l.Takes place) {c : Content} (hc : s'.get? place = some (.file c)) :
    s'.Leads follow fuel links here rest (.at place (.file c)) := by
  induction h with
  | here => cases hl
  | dot _ ih => exact .dot (ih hl)
  | up _ ih => exact .up (ih hl)
  | free hname _ =>
      cases hl
      exact .file hname hc
  | down hname hget _ ih => exact .down hname (keeps hget (by simp)) (ih hl)
  | file hname _ =>
      cases hl
      exact .file hname hc
  | link => cases hl
  | jump hname hget hend htext _ ih =>
      exact .jump hname (keeps hget (by simp)) hend htext (ih hl)

theorem Leads.ne_nil {s : Store} {follow : Bool} {fuel links : Nat} {here place : Place}
    {rest : List String} {l : Located} (h : s.Leads follow fuel links here rest l)
    (hl : l.Takes place) : place ≠ [] := by
  cases hl with
  | file place c =>
      have hget := h.get?_of_at (by simp)
      rintro rfl
      cases hget
  | free directory name => simp

/-- Where a file is put, nothing but a file was before. -/
theorem keeps_put {s : Store} {follow : Bool} {fuel links : Nat} {here place : Place}
    {rest : List String} {l : Located} (h : s.Leads follow fuel links here rest l)
    (hl : l.Takes place) (c : Content) : s.Keeps (s.put place (.file c)) := by
  have hplace : s.get? place = none ∨ ∃ c, s.get? place = some (.file c) := by
    cases hl with
    | file place c => exact .inr ⟨c, h.get?_of_at (by simp)⟩
    | free directory name => exact .inl h.get?_of_free
  intro other e hget he
  rw [get?_put_of_ne _ _, hget]
  rintro rfl
  rcases hplace with hn | ⟨c, hc⟩
  · rw [hn] at hget
    cases hget
  · rw [hc] at hget
    exact he c (Option.some.inj hget).symm

/-- Once a file was put where a walk leads, the walk leads to that file. -/
theorem Leads.put {s : Store} {follow : Bool} {fuel links : Nat} {here : Place}
    {rest : List String} {l : Located} {place : Place} (h : s.Leads follow fuel links here rest l)
    (hl : l.Takes place) (c : Content) :
    (s.put place (.file c)).Leads follow fuel links here rest (.at place (.file c)) :=
  h.of_keeps (keeps_put h hl c) hl (get?_put_self (h.ne_nil hl) _)

/-! ### Paths -/

/-- Whether a path can be followed at all. -/
def IsPath (p : Path) : Prop :=
  p.text ≠ "" ∧ p.text.toList.contains (Char.ofNat 0) = false ∧ p.text.utf8ByteSize < pathLimit

/-- The directory from which a path is followed. -/
def start (s : Store) (p : Path) : Place := if p.isAbsolute then [] else s.cwd

/-- The steps of a path. -/
def route (p : Path) : List String :=
  steps p.text ++ if wantsDirectory p.text then ["."] else []

theorem locate_ok_iff {s : Store} {follow : Bool} {p : Path} {l : Located} :
    s.locate follow p = .ok l ↔
      IsPath p ∧ s.Leads follow stepLimit linkLimit (s.start p) (route p) l := by
  unfold locate
  constructor
  · intro h
    split at h
    · cases h
    · rename_i htext
      split at h
      · cases h
      · rename_i hnul
        split at h
        · cases h
        · rename_i hsize
          exact ⟨⟨htext, Bool.eq_false_iff.mpr hnul, Nat.lt_of_not_le hsize⟩, leads_of_walk h⟩
  · rintro ⟨⟨htext, hnul, hsize⟩, h⟩
    rw [if_neg htext, hnul, if_neg Bool.false_ne_true, if_neg (Nat.not_le.mpr hsize)]
    exact h.walk

theorem read_ok_iff {s : Store} {p : Path} {c : Content} :
    s.read p = .ok c ↔ ∃ place, s.locate true p = .ok (.at place (.file c)) := by
  unfold read
  rcases s.locate true p with e | ⟨place, e⟩ | ⟨directory, name⟩
  · simp [bind, Except.bind]
  · cases e <;> simp [bind, Except.bind, pure, Except.pure, throw, throwThe, MonadExceptOf.throw]
  · simp [bind, Except.bind, throw, throwThe, MonadExceptOf.throw]

/-- A path is not found if there is nothing at its first name and it goes on. -/
theorem locate_of_missing {s : Store} {follow : Bool} {p : Path} {name : String}
    {rest : List String} (hp : IsPath p) (hroute : route p = name :: rest) (hname : IsName name)
    (hrest : rest ≠ []) (hget : s.get? (s.start p ++ [name]) = none) :
    s.locate follow p = .error .notFound := by
  obtain ⟨htext, hnul, hsize⟩ := hp
  unfold locate
  rw [if_neg htext, hnul, if_neg Bool.false_ne_true, if_neg (Nat.not_le.mpr hsize)]
  have hwalk := walk_name s follow (stepLimit - 1) linkLimit (s.start p) rest hname
  rw [← hroute, lookAt, hget] at hwalk
  dsimp only at hwalk
  rw [if_neg hrest] at hwalk
  exact hwalk

/-- A write is done where the path leads to a file or a free name. -/
theorem write_of_locate {s : Store} {p : Path} {l : Located} {place : Place}
    (hl : s.locate true p = .ok l) (htakes : l.Takes place) (c : Content) :
    s.write p c = .ok (s.put place (.file c)) := by
  rw [write, hl]
  cases htakes <;> rfl

/-- A write that is done puts the file where the path leads. -/
theorem write_ok {s s' : Store} {p : Path} {c : Content} (h : s.write p c = .ok s') :
    ∃ l place, s.locate true p = .ok l ∧ l.Takes place ∧ s' = s.put place (.file c) := by
  unfold write at h
  rcases hl : s.locate true p with e | ⟨place, e⟩ | ⟨directory, name⟩
  · rw [hl] at h
    cases h
  · rw [hl] at h
    cases e with
    | file c₀ =>
        cases h
        exact ⟨_, place, rfl, .file place c₀, rfl⟩
    | directory => cases h
    | link target => cases h
  · rw [hl] at h
    cases h
    exact ⟨_, _, rfl, .free directory name, rfl⟩

/-- A new entry is put at a name that was free. -/
theorem create_ok {s s' : Store} {p : Path} {e : Entry} (h : s.create p e = .ok s') :
    ∃ place, s.get? place = none ∧ place ≠ [] ∧ s' = s.put place e := by
  unfold create at h
  rcases hl : s.locate false ⟨String.ofList (Path.trimEnd p.text.toList)⟩ with
    e' | ⟨place, e'⟩ | ⟨directory, name⟩
  · rw [hl] at h
    cases h
  · rw [hl] at h
    cases h
  · rw [hl] at h
    cases h
    exact ⟨_, (locate_ok_iff.mp hl).2.get?_of_free, by simp, rfl⟩

/-- A removal takes away a file or a link to which the path leads. -/
theorem removeFile_ok {s s' : Store} {p : Path} (h : s.removeFile p = .ok s') :
    ∃ place e, s.locate false p = .ok (.at place e) ∧ s.get? place = some e ∧
      s' = s.erase place := by
  unfold removeFile at h
  rcases hl : s.locate false p with e | ⟨place, e⟩ | ⟨directory, name⟩
  · rw [hl] at h
    cases h
  · rw [hl] at h
    have hget := (locate_ok_iff.mp hl).2.get?_of_at
    cases e with
    | directory => cases h
    | file c =>
        cases h
        exact ⟨place, _, rfl, hget (by simp), rfl⟩
    | link target =>
        cases h
        exact ⟨place, _, rfl, hget (by simp), rfl⟩
  · rw [hl] at h
    cases h

/-- Once a file was put where a path leads, the path leads to that file. -/
theorem locate_put {s : Store} {follow : Bool} {p : Path} {l : Located} {place : Place}
    (hl : s.locate follow p = .ok l) (htakes : l.Takes place) (c : Content) :
    (s.put place (.file c)).locate follow p = .ok (.at place (.file c)) := by
  obtain ⟨hp, hleads⟩ := locate_ok_iff.mp hl
  exact locate_ok_iff.mpr ⟨hp, hleads.put htakes c⟩

/-- What was written at a path is read there. -/
theorem read_of_write {s s' : Store} {p : Path} {c : Content} (h : s.write p c = .ok s') :
    s'.read p = .ok c := by
  obtain ⟨l, place, hl, htakes, rfl⟩ := write_ok h
  exact read_ok_iff.mpr ⟨place, locate_put hl htakes c⟩

/-! ### Removals -/

theorem get?_erase_of_ne {s : Store} {place other : Place} (h : other ≠ place) :
    (s.erase place).get? other = s.get? other := by
  unfold get? erase
  split
  · rfl
  · induction s.entries with
    | nil => rfl
    | cons head rest ih =>
        obtain ⟨p, e⟩ := head
        by_cases hp : p = place
        · rw [List.filter_cons_of_neg (by simp [hp]), ih, List.lookup_cons]
          rw [beq_eq_false_iff_ne.mpr (hp ▸ h)]
        · rw [List.filter_cons_of_pos (by simp [hp]), List.lookup_cons, List.lookup_cons, ih]

/-- Once a file was taken away, a walk leads to any other file to which it led before. -/
theorem Leads.erase {s : Store} {follow : Bool} {fuel links : Nat} {here place gone : Place}
    {rest : List String} {c c' : Content}
    (h : s.Leads follow fuel links here rest (.at place (.file c)))
    (hgone : s.get? gone = some (.file c')) (hne : place ≠ gone) :
    (s.erase gone).Leads follow fuel links here rest (.at place (.file c)) := by
  have keeps : s.Keeps (s.erase gone) := by
    intro other e hget he
    rw [get?_erase_of_ne _, hget]
    rintro rfl
    rw [hgone] at hget
    exact he c' (Option.some.inj hget).symm
  exact h.of_keeps keeps (.file place c) ((get?_erase_of_ne hne).trans (h.get?_of_at (by simp)))

/-- Whether a path, if it leads to anything, leads to a file other than the one to be read at a
target. -/
def Apart (s : Store) (p target : Path) : Prop :=
  ∀ place e, s.locate false p = .ok (.at place e) →
    (∃ c, e = .file c) ∧ s.locate true target ≠ .ok (.at place e)

/-- A removal elsewhere leaves what is read at a target. -/
theorem read_of_removeFile {s s' : Store} {p target : Path} {c : Content}
    (h : s.removeFile p = .ok s') (apart : s.Apart p target) (hr : s.read target = .ok c) :
    s'.read target = .ok c := by
  obtain ⟨gone, e, hp, hget, rfl⟩ := removeFile_ok h
  obtain ⟨⟨c', rfl⟩, htarget⟩ := apart gone e hp
  obtain ⟨place, hl⟩ := read_ok_iff.mp hr
  obtain ⟨hpath, hleads⟩ := locate_ok_iff.mp hl
  have hne : place ≠ gone := by
    rintro rfl
    have hplace := hleads.get?_of_at (by simp)
    rw [hget] at hplace
    cases hplace
    exact htarget hl
  exact read_ok_iff.mpr ⟨place, locate_ok_iff.mpr ⟨hpath, hleads.erase hget hne⟩⟩

end Store

end Trellis
