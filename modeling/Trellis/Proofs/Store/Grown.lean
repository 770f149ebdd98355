import Trellis.Proofs.Source.Names
import Trellis.Proofs.Store.Directories

/-! # Stores that grow

What paths lead to in a store to which directories and files were added.

* `Store.Retains` says that nothing went away and nothing became of another kind. A path that leads
  to a directory leads there still (`Retains.locate_directory`), and a path that fails for another
  reason than a missing name fails in the same way (`Retains.locate_error`).
* A `Store.Plan` tells where directories may be made and where files may be put; `Store.Grown` says
  that no more was done.
* `Store.ReadsAlike` says that a path is a file in two stores or in none of them, with the same
  content. Sources are read there alike (`ReadsAlike.textAt_eq`), and specifiers lead to the same
  modules if the paths tried for them are read alike (`Store.lookup_congr`).
* `Store.Settled` says of a path that it is a file in every grown store exactly if it was one, and
  not one that is put there. It is read as before in all of them (`Settled.readsAlike`). -/

namespace Trellis

namespace Store

/-! ### What stays -/

/-- Whether everything that stands in a store stands in another, files perhaps with other contents. -/
def Retains (s t : Store) : Prop :=
  ∀ x e, s.get? x = some e →
    t.get? x = some e ∨ ∃ c c', e = .file c ∧ t.get? x = some (.file c')

theorem Extends.retains {s t : Store} (h : s.Extends t) : s.Retains t :=
  fun _ _ hs => .inl (h.get?_of_some hs)

theorem start_congr {s t : Store} (h : t.cwd = s.cwd) (p : Path) : t.start p = s.start p := by
  rw [start, start, h]

theorem locate_of_isPath {s : Store} {follow : Bool} {p : Path} (h : IsPath p) :
    s.locate follow p = s.walk follow stepLimit linkLimit (s.start p) (route p) := by
  unfold locate
  rw [if_neg h.1, h.2.1, if_neg Bool.false_ne_true, if_neg (Nat.not_le.mpr h.2.2)]
  rfl

/-- What is wrong with a text that is no path is wrong in every store. -/
theorem locate_of_not_isPath {p : Path} (h : ¬ IsPath p) (s t : Store) (follow : Bool) :
    t.locate follow p = s.locate follow p := by
  unfold locate
  split
  · rfl
  · rename_i htext
    split
    · rfl
    · rename_i hnul
      split
      · rfl
      · rename_i hsize
        exact absurd ⟨htext, Bool.eq_false_iff.mpr hnul, Nat.lt_of_not_le hsize⟩ h

/-- A walk that leads to a file or a free name leads to that name where nothing stands. -/
theorem Leads.free_of_keeps {s t : Store} (keeps : s.Keeps t) {follow : Bool} {fuel links : Nat}
    {here x : Place} {rest : List String} {l : Located}
    (hl : s.Leads follow fuel links here rest l) (htakes : l.Takes x) (hx : t.get? x = none) :
    ∃ l', t.Leads follow fuel links here rest l' ∧ l'.Takes x := by
  induction hl with
  | here => cases htakes
  | dot _ ih =>
      obtain ⟨l', hl', htakes'⟩ := ih htakes
      exact ⟨l', .dot hl', htakes'⟩
  | up _ ih =>
      obtain ⟨l', hl', htakes'⟩ := ih htakes
      exact ⟨l', .up hl', htakes'⟩
  | free hname _ =>
      cases htakes
      exact ⟨_, .free hname hx, .free _ _⟩
  | down hname hget _ ih =>
      obtain ⟨l', hl', htakes'⟩ := ih htakes
      exact ⟨l', .down hname (keeps hget (by simp)) hl', htakes'⟩
  | file hname _ =>
      cases htakes
      exact ⟨_, .free hname hx, .free _ _⟩
  | link => cases htakes
  | jump hname hget hend htext _ ih =>
      obtain ⟨l', hl', htakes'⟩ := ih htakes
      exact ⟨l', .jump hname (keeps hget (by simp)) hend htext hl', htakes'⟩

/-- A path leads to the file that stands where it led to a file or a free name. -/
theorem locate_file_of_keeps {s t : Store} (keeps : s.Keeps t) (hcwd : t.cwd = s.cwd)
    {follow : Bool} {p : Path} {l : Located} {x : Place} {c : Content}
    (hl : s.locate follow p = .ok l) (htakes : l.Takes x) (hx : t.get? x = some (.file c)) :
    t.locate follow p = .ok (.at x (.file c)) := by
  obtain ⟨hp, hl⟩ := locate_ok_iff.mp hl
  refine locate_ok_iff.mpr ⟨hp, ?_⟩
  rw [start_congr hcwd]
  exact hl.of_keeps keeps htakes hx

/-- Where a file could be put, one can be put in a store with the same directories and links, if
nothing else stands there. -/
theorem locate_takes_of_keeps {s t : Store} (keeps : s.Keeps t) (hcwd : t.cwd = s.cwd)
    {follow : Bool} {p : Path} {l : Located} {x : Place} (hl : s.locate follow p = .ok l)
    (htakes : l.Takes x) (hx : ∀ e, t.get? x = some e → ∃ c, e = .file c) :
    ∃ l', t.locate follow p = .ok l' ∧ l'.Takes x := by
  cases hget : t.get? x with
  | none =>
      obtain ⟨hp, hl⟩ := locate_ok_iff.mp hl
      obtain ⟨l', hl', htakes'⟩ := hl.free_of_keeps keeps htakes hget
      refine ⟨l', locate_ok_iff.mpr ⟨hp, ?_⟩, htakes'⟩
      rw [start_congr hcwd]
      exact hl'
  | some e =>
      obtain ⟨c, rfl⟩ := hx e hget
      exact ⟨_, locate_file_of_keeps keeps hcwd hl htakes hget, .file x c⟩

namespace Retains

variable {s t : Store}

/-- What is retained is kept. -/
theorem keeps (h : s.Retains t) : s.Keeps t := by
  intro x e he hfile
  rcases h x e he with ht | ⟨c, _, rfl, _⟩
  · exact ht
  · exact absurd rfl (hfile c)

theorem file (h : s.Retains t) {x : Place} {c : Content} (hs : s.get? x = some (.file c)) :
    ∃ c', t.get? x = some (.file c') := by
  rcases h x _ hs with ht | ⟨_, c', _, ht⟩
  · exact ⟨c, ht⟩
  · exact ⟨c', ht⟩

theorem leads_directory (h : s.Retains t) {follow : Bool} {fuel links : Nat} {here x : Place}
    {rest : List String} (hl : s.Leads follow fuel links here rest (.at x .directory)) :
    t.Leads follow fuel links here rest (.at x .directory) := by
  generalize hr : Located.at x .directory = l at hl ⊢
  induction hl with
  | here => exact .here
  | dot _ ih => exact .dot (ih hr)
  | up _ ih => exact .up (ih hr)
  | free => cases hr
  | down hname hget _ ih => exact .down hname (h.keeps hget (by simp)) (ih hr)
  | file => cases hr
  | link => cases hr
  | jump hname hget hend htext _ ih =>
      exact .jump hname (h.keeps hget (by simp)) hend htext (ih hr)

/-- A path that leads to a directory leads there still. -/
theorem locate_directory (h : s.Retains t) (hcwd : t.cwd = s.cwd) {follow : Bool} {p : Path}
    {x : Place} (hl : s.locate follow p = .ok (.at x .directory)) :
    t.locate follow p = .ok (.at x .directory) := by
  obtain ⟨hp, hl⟩ := locate_ok_iff.mp hl
  refine locate_ok_iff.mpr ⟨hp, ?_⟩
  rw [start_congr hcwd]
  exact h.leads_directory hl

/-- A path leads to the file that stands where it led to a file or a free name. -/
theorem locate_file (h : s.Retains t) (hcwd : t.cwd = s.cwd) {follow : Bool} {p : Path}
    {l : Located} {x : Place} {c : Content} (hl : s.locate follow p = .ok l) (htakes : l.Takes x)
    (hx : t.get? x = some (.file c)) : t.locate follow p = .ok (.at x (.file c)) :=
  locate_file_of_keeps h.keeps hcwd hl htakes hx

/-- Where a file could be put, one can be put still if nothing else came to stand there. -/
theorem locate_takes (h : s.Retains t) (hcwd : t.cwd = s.cwd) {follow : Bool} {p : Path}
    {l : Located} {x : Place} (hl : s.locate follow p = .ok l) (htakes : l.Takes x)
    (hx : ∀ e, t.get? x = some e → ∃ c, e = .file c) :
    ∃ l', t.locate follow p = .ok l' ∧ l'.Takes x :=
  locate_takes_of_keeps h.keeps hcwd hl htakes hx

theorem lookAt_error (h : s.Retains t) {follow : Bool} {fuel links : Nat} {here : Place}
    {name : String} {rest : List String} {err : FileFault}
    (ih : ∀ {links : Nat} {here : Place} {rest : List String},
      s.walk follow fuel links here rest = .error err →
        t.walk follow fuel links here rest = .error err)
    (herr : err ≠ .notFound) (hl : s.lookAt follow fuel links here name rest = .error err) :
    t.lookAt follow fuel links here name rest = .error err := by
  unfold lookAt at hl ⊢
  cases hget : s.get? (here ++ [name]) with
  | none =>
      rw [hget] at hl
      dsimp only at hl
      split at hl <;> cases hl
      exact absurd rfl herr
  | some e =>
      rw [hget] at hl
      cases e with
      | file c =>
          obtain ⟨c', hc'⟩ := h.file hget
          rw [hc']
          dsimp only at hl ⊢
          split at hl
          · cases hl
          · rename_i hrest
            rw [if_neg hrest]
            exact hl
      | directory =>
          rw [h.keeps hget (by simp)]
          exact ih hl
      | link target =>
          rw [h.keeps hget (by simp)]
          dsimp only at hl ⊢
          split at hl
          · cases hl
          · rename_i hend
            rw [if_neg hend]
            cases links with
            | zero => exact hl
            | succ links =>
                dsimp only at hl ⊢
                split at hl
                · rename_i htext
                  rw [if_pos htext]
                  exact hl
                · rename_i htext
                  rw [if_neg htext]
                  exact ih hl

theorem walk_error (h : s.Retains t) {follow : Bool} {fuel links : Nat} {here : Place}
    {rest : List String} {err : FileFault} (herr : err ≠ .notFound)
    (hl : s.walk follow fuel links here rest = .error err) :
    t.walk follow fuel links here rest = .error err := by
  induction fuel generalizing links here rest with
  | zero => exact hl
  | succ fuel ih =>
      cases rest with
      | nil => cases hl
      | cons name rest =>
          by_cases hdot : name = "."
          · subst hdot
            exact ih hl
          · by_cases hup : name = ".."
            · subst hup
              exact ih hl
            · by_cases hsize : nameLimit < name.utf8ByteSize
              · rw [walk, if_neg hdot, if_neg hup, if_pos hsize] at hl ⊢
                exact hl
              · have hname : IsName name := ⟨hdot, hup, Nat.le_of_not_lt hsize⟩
                rw [walk_name _ follow fuel links here rest hname] at hl ⊢
                exact h.lookAt_error ih herr hl

/-- A path that fails, and not for a missing name, fails in the same way. -/
theorem locate_error (h : s.Retains t) (hcwd : t.cwd = s.cwd) {follow : Bool} {p : Path}
    {err : FileFault} (herr : err ≠ .notFound) (hl : s.locate follow p = .error err) :
    t.locate follow p = .error err := by
  by_cases hp : IsPath p
  · rw [locate_of_isPath hp] at hl ⊢
    rw [start_congr hcwd]
    exact h.walk_error herr hl
  · rw [locate_of_not_isPath hp s t]
    exact hl

end Retains

/-! ### Paths that are read alike -/

section alike
variable {s t : Store} {p : Path}

/-- A path that is a file is a file still. -/
theorem Retains.isFile (h : s.Retains t) (hcwd : t.cwd = s.cwd) (hp : s.isFile p = true) :
    t.isFile p = true := by
  obtain ⟨x, c, hl⟩ := isFile_iff.mp hp
  obtain ⟨c', hc'⟩ := h.file ((locate_ok_iff.mp hl).2.get?_of_at (by simp))
  exact isFile_iff.mpr ⟨x, c', h.locate_file hcwd hl (.file x c) hc'⟩

/-- Whether a path is read alike in two stores: it is a file in both or in none, with the same
content. -/
structure ReadsAlike (s t : Store) (p : Path) : Prop where
  /-- It is a file in both or in none. -/
  isFile_eq : t.isFile p = s.isFile p
  /-- If it is a file, it holds the same. -/
  read_eq : s.isFile p = true → t.read p = s.read p

namespace ReadsAlike

/-- The text of a source is the same. -/
theorem textAt_eq (h : s.ReadsAlike t p) (d : Dialect) :
    Source.textAt t p d = Source.textAt s p d := by
  unfold Source.textAt readText
  rw [h.isFile_eq]
  split
  · rename_i hf
    rw [h.read_eq hf]
  · rfl

theorem load_eq (h : s.ReadsAlike t p) : Source.load t p = Source.load s p := by
  unfold Source.load
  simp only [h.textAt_eq]

theorem loadComponent_eq (h : s.ReadsAlike t p) :
    Source.loadComponent t p = Source.loadComponent s p := by
  unfold Source.loadComponent
  simp only [h.textAt_eq]

theorem opened?_eq (h : s.ReadsAlike t p) : Source.opened? t p = Source.opened? s p := by
  unfold Source.opened?
  rw [funext h.textAt_eq]

end ReadsAlike

/-- Whether a path is looked at for a specifier in the source at a path: no path that comes before
it is a file. -/
def Tries (s : Store) (source : Path) (specifier : String) (p : Path) : Prop :=
  Text.startsWith specifier "." = true ∧
    ∃ before after, moduleCandidates (source.parent.join ⟨specifier⟩) = before ++ p :: after ∧
      ∀ q ∈ before, s.isFile q = false

/-- The first element with a property is the same if the elements looked at have it or not alike. -/
theorem find?_congr {α : Type} {p q : α → Bool} {l : List α}
    (h : ∀ before a after, l = before ++ a :: after → (∀ x ∈ before, p x = false) → q a = p a) :
    l.find? q = l.find? p := by
  induction l with
  | nil => rfl
  | cons a l ih =>
      have ha : q a = p a := h [] a l rfl nofun
      rw [List.find?_cons, List.find?_cons, ha]
      cases hp : p a with
      | true => rfl
      | false =>
          refine ih fun before b after heq hbefore => h (a :: before) b after (by rw [heq]; rfl) ?_
          intro x hx
          rcases List.mem_cons.mp hx with rfl | hx
          · exact hp
          · exact hbefore x hx

variable {source : Path} {specifier : String}

theorem resolve?_congr (h : ∀ q, s.Tries source specifier q → s.ReadsAlike t q) :
    t.resolve? source specifier = s.resolve? source specifier := by
  unfold resolve?
  split
  · rename_i hstart
    exact find?_congr fun before q after heq hbefore =>
      (h q ⟨hstart, before, after, heq, hbefore⟩).isFile_eq
  · rfl

/-- The file behind a specifier is the last path that is tried. -/
theorem tries_of_resolve? {q : Path} (h : s.resolve? source specifier = some q) :
    s.Tries source specifier q := by
  unfold resolve? at h
  split at h
  · rename_i hstart
    obtain ⟨_, before, after, heq, hbefore⟩ := List.find?_eq_some_iff_append.mp h
    exact ⟨hstart, before, after, heq, fun r hr => by simpa using hbefore r hr⟩
  · cases h

/-- The same paths are tried for a specifier if they are read alike. -/
theorem tries_congr (h : ∀ q, s.Tries source specifier q → s.ReadsAlike t q) {q : Path}
    (hq : t.Tries source specifier q) : s.Tries source specifier q := by
  obtain ⟨hstart, before, after, heq, hbefore⟩ := hq
  refine ⟨hstart, before, after, heq, ?_⟩
  -- Each path before it was tried in the first store, as none before that is a file there.
  induction before using List.reverseRecOn generalizing q after with
  | nil => exact nofun
  | append_singleton before r ih =>
      have heq' : moduleCandidates (source.parent.join ⟨specifier⟩) =
          before ++ r :: (q :: after) := by rw [heq, List.append_assoc, List.singleton_append]
      have hfirst := ih (q :: after) heq' fun x hx => hbefore x (List.mem_append_left _ hx)
      have hr := (h r ⟨hstart, before, q :: after, heq', hfirst⟩).isFile_eq
      intro x hx
      rcases List.mem_append.mp hx with hx | hx
      · exact hfirst x hx
      · obtain rfl := List.mem_singleton.mp hx
        rw [← hr]
        exact hbefore x (by simp)

/-- A specifier leads to the same module if the paths tried for it are read alike. -/
theorem lookup_congr (h : ∀ q, s.Tries source specifier q → s.ReadsAlike t q) :
    t.lookup source specifier = s.lookup source specifier := by
  unfold lookup
  rw [resolve?_congr h]
  cases hr : s.resolve? source specifier with
  | none => rfl
  | some q =>
      have hq := h q (tries_of_resolve? hr)
      dsimp only
      rw [hq.load_eq, hq.opened?_eq]

end alike

/-! ### What is added -/

/-- What may be added to a store. -/
structure Plan where
  /-- Where directories may be made. -/
  made : Place → Prop
  /-- Where files may be put. -/
  filled : Place → Prop

/-- Whether a store is another with no more added than was planned: directories at free places, and
files at other places that were free or held a file. -/
structure Grown (plan : Plan) (s t : Store) : Prop where
  /-- Relative paths are taken from the same directory. -/
  cwd_eq : t.cwd = s.cwd
  /-- What stands at a place. -/
  get?_eq : ∀ x, t.get? x = s.get? x ∨
    (plan.made x ∧ ¬ plan.filled x ∧ s.get? x = none ∧ t.get? x = some .directory) ∨
    (plan.filled x ∧ (∀ e, s.get? x = some e → ∃ c, e = .file c) ∧
      ∃ c, t.get? x = some (.file c))

namespace Grown

variable {plan : Plan} {s t : Store} {x : Place}

theorem refl (plan : Plan) (s : Store) : s.Grown plan s := ⟨rfl, fun _ => .inl rfl⟩

theorem retains (h : s.Grown plan t) : s.Retains t := by
  intro x e he
  rcases h.get?_eq x with heq | ⟨_, _, hnone, _⟩ | ⟨_, hfile, c, hc⟩
  · exact .inl (heq.trans he)
  · rw [hnone] at he
    cases he
  · obtain ⟨c', rfl⟩ := hfile e he
    exact .inr ⟨c', c, rfl, hc⟩

/-- What stands at a place for a file is a file, if it was. -/
theorem file_of_get? (h : s.Grown plan t) (hx : plan.filled x)
    (hfile : ∀ e, s.get? x = some e → ∃ c, e = .file c) :
    ∀ e, t.get? x = some e → ∃ c, e = .file c := by
  intro e he
  rcases h.get?_eq x with heq | ⟨_, hnot, _⟩ | ⟨_, _, c, hc⟩
  · exact hfile e (heq ▸ he)
  · exact absurd hx hnot
  · rw [hc] at he
    exact ⟨c, (Option.some.inj he).symm⟩

/-- At a free place for a directory is a directory or still nothing. -/
theorem directory_of_get? (h : s.Grown plan t) (hx : ¬ plan.filled x) (hs : s.get? x = none) :
    t.get? x = none ∨ t.get? x = some .directory := by
  rcases h.get?_eq x with heq | ⟨_, _, _, hd⟩ | ⟨hfilled, _⟩
  · exact .inl (heq.trans hs)
  · exact .inr hd
  · exact absurd hfilled hx

/-- Files elsewhere are as they were. -/
theorem file_of_not_filled (h : s.Grown plan t) (hx : ¬ plan.filled x) (c : Content) :
    t.get? x = some (.file c) ↔ s.get? x = some (.file c) := by
  rcases h.get?_eq x with heq | ⟨_, _, hnone, hd⟩ | ⟨hfilled, _⟩
  · rw [heq]
  · rw [hnone, hd]
    simp
  · exact absurd hfilled hx

/-- A place for a file is free as long as it was and no file is there. -/
theorem get?_eq_none (h : s.Grown plan t) (hx : plan.filled x) (hs : s.get? x = none)
    (hfree : ∀ c, t.get? x ≠ some (.file c)) : t.get? x = none := by
  rcases h.get?_eq x with heq | ⟨_, hnot, _⟩ | ⟨_, _, c, hc⟩
  · exact heq.trans hs
  · exact absurd hx hnot
  · exact absurd hc (hfree c)

/-- A file may be put where it was planned, if only files were there. -/
theorem put (h : s.Grown plan t) (hx : plan.filled x)
    (hfile : ∀ e, s.get? x = some e → ∃ c, e = .file c) (c : Content) :
    s.Grown plan (t.put x (.file c)) := by
  have hne : x ≠ [] := by
    rintro rfl
    obtain ⟨c, hc⟩ := hfile .directory rfl
    cases hc
  refine ⟨h.cwd_eq, fun y => ?_⟩
  by_cases hy : y = x
  · subst hy
    exact .inr (.inr ⟨hx, hfile, c, get?_put_self hne _⟩)
  · rw [get?_put_of_ne hy]
    exact h.get?_eq y

/-- A directory may be made where it was planned. -/
theorem put_directory (h : s.Grown plan t) (hx : plan.made x) (hnot : ¬ plan.filled x)
    (hs : s.get? x = none) : s.Grown plan (t.put x .directory) := by
  have hne : x ≠ [] := by
    rintro rfl
    cases hs
  refine ⟨h.cwd_eq, fun y => ?_⟩
  by_cases hy : y = x
  · subst hy
    exact .inr (.inl ⟨hx, hnot, hs, get?_put_self hne _⟩)
  · rw [get?_put_of_ne hy]
    exact h.get?_eq y

end Grown

/-! ### Paths that are read -/

/-- Whether a path is a file in every grown store exactly if it was one, and none of those that are
put there. -/
structure Settled (plan : Plan) (s : Store) (p : Path) : Prop where
  /-- It is a file exactly if it was one. -/
  isFile_eq : ∀ t, s.Grown plan t → t.isFile p = s.isFile p
  /-- No file is put in its place. -/
  not_filled : ∀ x c, s.locate true p = .ok (.at x (.file c)) → ¬ plan.filled x

variable {plan : Plan} {s t : Store} {p : Path}

theorem Grown.locate_file_eq (hg : s.Grown plan t) {x : Place} {c : Content}
    (hl : s.locate true p = .ok (.at x (.file c))) (hx : ¬ plan.filled x) :
    t.locate true p = .ok (.at x (.file c)) := by
  have hget := (locate_ok_iff.mp hl).2.get?_of_at (by simp)
  exact hg.retains.locate_file hg.cwd_eq hl (.file x c) ((hg.file_of_not_filled hx c).mpr hget)

/-- A file that is not put anew is settled. -/
theorem settled_of_locate {x : Place} {c : Content} (hl : s.locate true p = .ok (.at x (.file c)))
    (hx : ¬ plan.filled x) : s.Settled plan p := by
  constructor
  · intro t hg
    rw [isFile_iff.mpr ⟨x, c, hl⟩, isFile_iff.mpr ⟨x, c, hg.locate_file_eq hl hx⟩]
  · intro y c' hy
    rw [hl] at hy
    cases hy
    exact hx

/-- A directory is settled. -/
theorem settled_of_directory {x : Place} (hl : s.locate true p = .ok (.at x .directory)) :
    s.Settled plan p := by
  have hno {t : Store} (h : t.locate true p = .ok (.at x .directory)) : t.isFile p = false := by
    rw [isFile, entry?, h]
  constructor
  · intro t hg
    rw [hno hl, hno (hg.retains.locate_directory hg.cwd_eq hl)]
  · intro y c hy
    rw [hl] at hy
    cases hy

/-- A settled path is read as before. -/
theorem Settled.readsAlike (h : s.Settled plan p) (hg : s.Grown plan t) : s.ReadsAlike t p := by
  refine ⟨h.isFile_eq t hg, fun hf => ?_⟩
  obtain ⟨x, c, hl⟩ := isFile_iff.mp hf
  rw [read_ok_iff.mpr ⟨x, hl⟩, read_ok_iff.mpr ⟨x, hg.locate_file_eq hl (h.not_filled x c hl)⟩]

end Store

end Trellis
