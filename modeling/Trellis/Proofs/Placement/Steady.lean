import Trellis.Proofs.Placement.Write
import Trellis.Proofs.Store.Grown
import Trellis.Proofs.Store.Parents

/-! # Targets in stores that grow

When a write at a target comes to the same in a store to which something was added.

* `Placement.Lands` says where a text that is put at a target comes to stand.
* `Placement.Steady` lists how a target may fare alike in every grown store: a directory stands there,
  or it cannot be followed, or every write is refused in the same way, or every write lands at the
  same place.
* `Steady.write_follows`: then a write ends in the same way. `Placement.Follows` says what it leaves:
  at the place where it lands the file that it leaves in the first store, and all other files as they
  were. -/

namespace Trellis.Placement

open Store (Plan)

/-- Whether a text that is put at a target comes to stand at a place. -/
def Lands (s : Store) (target : Path) (x : Place) : Prop :=
  (makeRoom s target).2 = none ∧ ∃ l, (room s target).locate true target = .ok l ∧ l.Takes x

/-- How a target fares in a store and in every store that grows from it. -/
inductive Steady (plan : Plan) (s : Store) (target : Path) : Prop
  /-- A directory stands there. -/
  | directory (x : Place) : s.locate true target = .ok (.at x .directory) → Steady plan s target
  /-- It cannot be followed, and not for a missing name. -/
  | stuck (err : FileFault) : s.locate true target = .error err → err ≠ .notFound →
      Steady plan s target
  /-- Nothing is there, and every write is refused in the same way. -/
  | refused (e : WriteFault) :
      (∀ t, s.Grown plan t → t.read target = .error .notFound ∧
        s.Grown plan (room t target) ∧ ∀ text, (put t target text).2 = some e) →
      Steady plan s target
  /-- Every write lands at the same place; a file at that place was at the target before. -/
  | lands (x : Place) :
      (∀ t, s.Grown plan t → s.Grown plan (room t target) ∧ Lands t target x) →
      (∀ c, s.get? x = some (.file c) → s.locate true target = .ok (.at x (.file c))) →
      Steady plan s target

variable {plan : Plan} {s s' t t' : Store} {target : Path} {text : String} {x y : Place}

/-! ### Where a text comes to stand -/

namespace Lands

theorem unique (h : Lands s target x) (h' : Lands s target y) : x = y := by
  obtain ⟨_, l, hl, htakes⟩ := h
  obtain ⟨_, l', hl', htakes'⟩ := h'
  rw [hl] at hl'
  cases hl'
  cases htakes <;> cases htakes' <;> rfl

/-- Nothing but a file stands where a text comes to stand. -/
theorem file_of_get? (h : Lands s target x) {e : Entry} (he : s.get? x = some e) :
    ∃ c, e = .file c := by
  obtain ⟨_, l, hl, htakes⟩ := h
  have hroom := (room_extends s target).get?_of_some he
  have hleads := (Store.locate_ok_iff.mp hl).2
  cases htakes with
  | file x c =>
      rw [hleads.get?_of_at (by simp)] at hroom
      exact ⟨c, (Option.some.inj hroom).symm⟩
  | free directory name =>
      rw [hleads.get?_of_free] at hroom
      cases hroom

/-- If nothing is there, then nothing is read at the target. -/
theorem read_of_none (h : Lands s target x) (hx : s.get? x = none) :
    s.read target = .error .notFound := by
  obtain ⟨_, l, hl, htakes⟩ := h
  have hext := room_extends s target
  rcases hs : s.locate true target with err | ⟨y, e⟩ | ⟨directory, name⟩
  · by_cases herr : err = .notFound
    · rw [Store.read, hs, herr]
      rfl
    · rw [hext.retains.locate_error hext.cwd_eq herr hs] at hl
      cases hl
  · rw [hext.locate_at hs] at hl
    cases hl
    cases htakes
    have hget := (Store.locate_ok_iff.mp hs).2.get?_of_at (by simp)
    rw [hx] at hget
    cases hget
  · rw [Store.read, hs]
    rfl

/-- A text that may be put at the target is put there. -/
theorem write_eq (h : Lands s target x) {p : Placement} (hp : permit s target text = .ok p) :
    write s target text = ((room s target).put x (.file (.text text)), .ok p) := by
  obtain ⟨hroom, l, hl, htakes⟩ := h
  exact write_of_permit hp hroom (Store.write_of_locate hl htakes (.text text))

/-- A text that is put at the target ends up there. -/
theorem put_eq (h : Lands s target x) (text : String) :
    put s target text = ((room s target).put x (.file (.text text)), none) := by
  obtain ⟨hroom, l, hl, htakes⟩ := h
  unfold put
  unfold room at hl ⊢
  cases hm : makeRoom s target with
  | mk s₁ r =>
      rw [hm] at hroom hl
      dsimp only at hroom hl ⊢
      subst hroom
      dsimp only
      rw [Store.write_of_locate hl htakes]

end Lands

/-! ### Looking at a target -/

theorem check_of_missing (h : s.read target = .error .notFound) : check s target = .ok .create := by
  have hdirectory : s.isDirectory target = false := by
    unfold Store.isDirectory Store.entry?
    unfold Store.read at h
    rcases hl : s.locate true target with err | ⟨y, e⟩ | ⟨directory, name⟩
    · rfl
    · rw [hl] at h
      cases e <;> cases h
    · rfl
  rw [check, hdirectory, if_neg Bool.false_ne_true, h]

theorem check_of_directory (h : s.locate true target = .ok (.at x .directory)) :
    check s target = .ok .keep := by
  have hdirectory : s.isDirectory target = true := by
    rw [Store.isDirectory, Store.entry?, h]
    rfl
  rw [check, if_pos hdirectory]

theorem check_of_stuck {err : FileFault} (h : s.locate true target = .error err)
    (herr : err ≠ .notFound) : check s target = .error (.store target err) := by
  have hdirectory : s.isDirectory target = false := by
    rw [Store.isDirectory, Store.entry?, h]
    rfl
  have hread : s.read target = .error err := by
    rw [Store.read, h]
    rfl
  rw [check, hdirectory, if_neg Bool.false_ne_true, hread]
  cases err <;> first | rfl | exact absurd rfl herr

/-- What is looked at where a text would come to stand is looked at in the same way as long as no
other file was put there. -/
theorem check_of_lands (hg : s.Grown plan t) (hx : plan.filled x) (hs : Lands s target x)
    (ht : Lands t target x)
    (hold : ∀ c, s.get? x = some (.file c) → s.locate true target = .ok (.at x (.file c)))
    (hfile : ∀ c, t.get? x = some (.file c) ↔ s.get? x = some (.file c)) :
    check t target = check s target := by
  cases hget : s.get? x with
  | none =>
      have hfree : ∀ c, t.get? x ≠ some (.file c) := by
        intro c hc
        rw [hfile, hget] at hc
        cases hc
      rw [check_of_missing (hs.read_of_none hget),
        check_of_missing (ht.read_of_none (hg.get?_eq_none hx hget hfree))]
  | some e =>
      obtain ⟨c, rfl⟩ := hs.file_of_get? hget
      have hl := hold c hget
      have hl' := hg.retains.locate_file hg.cwd_eq hl (.file x c) ((hfile c).mpr hget)
      rw [check_of_read_ok (Store.read_ok_iff.mpr ⟨x, hl⟩),
        check_of_read_ok (Store.read_ok_iff.mpr ⟨x, hl'⟩)]

/-- For a target that leads to something no directories are made. -/
theorem makeRoom_of_locate {l : Store.Located} (h : s.locate true target = .ok l) :
    makeRoom s target = (s, none) := by
  unfold makeRoom
  split
  · rfl
  · rename_i htext
    cases hparent : target.parent? with
    | none =>
        rw [Path.parent, hparent] at htext
        exact absurd rfl htext
    | some q =>
        have hq : target.parent = q := by rw [Path.parent, hparent, Option.getD_some]
        rw [hq] at htext ⊢
        rw [Store.createDirectories_of_isDirectory (Path.isTrimmed_of_parent? hparent)
          (Store.isDirectory_of_parent? h hparent htext)]

theorem room_of_locate {l : Store.Located} (h : s.locate true target = .ok l) :
    room s target = s := by
  rw [room, makeRoom_of_locate h]

/-- A text lands where its target leads already. -/
theorem lands_of_locate {l : Store.Located} (h : s.locate true target = .ok l)
    (htakes : l.Takes x) : Lands s target x := by
  refine ⟨by rw [makeRoom_of_locate h], l, ?_, htakes⟩
  rw [room_of_locate h]
  exact h

/-! ### Writing -/

theorem permit_congr (h : check t target = check s target) (text : String) :
    permit t target text = permit s target text := by
  unfold permit
  rw [h]

theorem write_of_permit_error {e : WriteFault} (h : permit s target text = .error e) :
    write s target text = (s, .error e) := by
  unfold write
  rw [h]

/-- A text that is refused leaves the room that was made for it. -/
theorem write_of_put_error {p : Placement} {e : WriteFault} (hp : permit s target text = .ok p)
    (h : (put s target text).2 = some e) : write s target text = (room s target, .error e) := by
  have hput : put s target text = (room s target, some e) := by
    unfold put at h ⊢
    unfold room
    cases hm : makeRoom s target with
    | mk s₁ r =>
        rw [hm] at h
        cases r with
        | some e₁ =>
            cases h
            rfl
        | none =>
            dsimp only at h ⊢
            cases hw : s₁.write target (.text text) with
            | ok s₂ =>
                rw [hw] at h
                cases h
            | error cause =>
                rw [hw] at h
                cases h
                rfl
  unfold write
  rw [hp, hput]

/-- What a write at a target leaves in a grown store, compared with what it leaves in the first. -/
structure Follows (plan : Plan) (s t : Store) (target : Path) (s' t' : Store) : Prop where
  /-- No more was added than was planned. -/
  grown : s.Grown plan t'
  /-- Where the text lands stands the same file. -/
  file_of_lands : ∀ x, Lands s target x → ∀ c,
    t'.get? x = some (.file c) ↔ s'.get? x = some (.file c)
  /-- All other files are as they were. -/
  file_of_not_lands : ∀ x, ¬ Lands s target x → ∀ c,
    t'.get? x = some (.file c) ↔ t.get? x = some (.file c)

/-- Whether the files at which a write at a target may land are those of another store. -/
def Untouched (s t : Store) (target : Path) : Prop :=
  ∀ x, Lands s target x → ∀ c, t.get? x = some (.file c) ↔ s.get? x = some (.file c)

/-- A write that adds directories at most leaves all files. -/
theorem Follows.of_extends (hfile : Untouched s t target) (hs : s.Extends s') (ht : t.Extends t')
    (hg : s.Grown plan t') : Follows plan s t target s' t' := by
  refine ⟨hg, fun x hx c => ?_, fun x _ c => ht.sameFiles x c⟩
  rw [ht.sameFiles, hs.sameFiles]
  exact hfile x hx c

/-- A write that is done changes the file where it lands. -/
theorem Follows.of_put (hg : s.Grown plan (room t target)) (hx : plan.filled x)
    (hs : Lands s target x) (c : Content) :
    Follows plan s t target ((room s target).put x (.file c))
      ((room t target).put x (.file c)) := by
  have hne : x ≠ [] := by
    rintro rfl
    obtain ⟨c', hc'⟩ := hs.file_of_get? (e := .directory) rfl
    cases hc'
  refine ⟨hg.put hx (fun e he => hs.file_of_get? he) c, fun y hy c' => ?_, fun y hy c' => ?_⟩
  · obtain rfl := hs.unique hy
    rw [Store.get?_put_self hne, Store.get?_put_self hne]
  · have hyx : y ≠ x := by
      rintro rfl
      exact hy hs
    rw [Store.get?_put_of_ne hyx]
    exact (room_extends t target).sameFiles y c'

namespace Steady

theorem check_eq (h : Steady plan s target) (hg : s.Grown plan t)
    (hplan : ∀ x, Lands s target x → plan.filled x) (hfile : Untouched s t target) :
    check t target = check s target := by
  cases h with
  | directory x hl =>
      rw [check_of_directory hl, check_of_directory (hg.retains.locate_directory hg.cwd_eq hl)]
  | stuck err hl herr =>
      rw [check_of_stuck hl herr,
        check_of_stuck (hg.retains.locate_error hg.cwd_eq herr hl) herr]
  | refused e hall =>
      rw [check_of_missing (hall s (.refl plan s)).1, check_of_missing (hall t hg).1]
  | lands x hall hold =>
      have hs := (hall s (.refl plan s)).2
      exact check_of_lands hg (hplan x hs) hs (hall t hg).2 hold (hfile x hs)

/-- A write at a steady target ends in the same way, and leaves what it leaves in the first store. -/
theorem write_follows (h : Steady plan s target) (hg : s.Grown plan t)
    (hplan : ∀ x, Lands s target x → plan.filled x) (hfile : Untouched s t target)
    (text : String) :
    (write t target text).2 = (write s target text).2 ∧
      Follows plan s t target (write s target text).1 (write t target text).1 := by
  have hpermit := permit_congr (h.check_eq hg hplan hfile) text
  cases hp : permit s target text with
  | error e =>
      rw [hp] at hpermit
      rw [write_of_permit_error hp, write_of_permit_error hpermit]
      exact ⟨rfl, .of_extends hfile (.refl s) (.refl t) hg⟩
  | ok p =>
      rw [hp] at hpermit
      obtain ⟨_, hcheck, hwrite⟩ := permit_ok_iff.mp hp
      cases h with
      | directory x hl =>
          rw [check_of_directory hl] at hcheck
          cases hcheck
          cases hwrite
      | stuck err hl herr =>
          rw [check_of_stuck hl herr] at hcheck
          cases hcheck
      | refused e hall =>
          obtain ⟨_, _, hs⟩ := hall s (.refl plan s)
          obtain ⟨_, hroom, ht⟩ := hall t hg
          rw [write_of_put_error hp (hs text), write_of_put_error hpermit (ht text)]
          exact ⟨rfl, .of_extends hfile (room_extends s target) (room_extends t target) hroom⟩
      | lands x hall hold =>
          obtain ⟨_, hs⟩ := hall s (.refl plan s)
          obtain ⟨hroom, ht⟩ := hall t hg
          rw [hs.write_eq hp, ht.write_eq hpermit]
          exact ⟨rfl, .of_put hroom (hplan x hs) hs (.text text)⟩

/-- A text that lands in a grown store lands where it lands in the first. -/
theorem lands_of_lands (h : Steady plan s target) (hg : s.Grown plan t) (hx : Lands t target x) :
    Lands s target x := by
  have hext := room_extends t target
  cases h with
  | directory y hl =>
      obtain ⟨_, l, hl', htakes⟩ := hx
      rw [hext.locate_at (hg.retains.locate_directory hg.cwd_eq hl)] at hl'
      cases hl'
      cases htakes
  | stuck err hl herr =>
      obtain ⟨_, l, hl', htakes⟩ := hx
      rw [hext.retains.locate_error hext.cwd_eq herr
        (hg.retains.locate_error hg.cwd_eq herr hl)] at hl'
      cases hl'
  | refused e hall =>
      have hput := (hall t hg).2.2 ""
      rw [hx.put_eq] at hput
      cases hput
  | lands y hall hold =>
      obtain rfl := hx.unique (hall t hg).2
      exact (hall s (.refl plan s)).2

end Steady

/-! ### Targets that are steady -/

/-- Whether the directory of a target is there. -/
structure HasRoom (s : Store) (target : Path) (x : Place) : Prop where
  /-- The target names a directory. -/
  named : target.parent.text ≠ ""
  /-- It is no link. -/
  locate_false : s.locate false ⟨String.ofList (Path.trimEnd target.parent.text.toList)⟩ =
    .ok (.at x .directory)
  /-- It is a directory. -/
  locate_true : s.locate true target.parent = .ok (.at x .directory)

theorem HasRoom.of_retains (h : HasRoom s target x) (hr : s.Retains t) (hcwd : t.cwd = s.cwd) :
    HasRoom t target x :=
  ⟨h.named, hr.locate_directory hcwd h.locate_false, hr.locate_directory hcwd h.locate_true⟩

/-- A directory that is there is not made. -/
theorem HasRoom.makeRoom_eq (h : HasRoom s target x) : makeRoom s target = (s, none) := by
  have hensure : s.ensureDirectory target.parent = (s, none) := by
    have hdirectory : s.isDirectory target.parent = true := by
      rw [Store.isDirectory, Store.entry?, h.locate_true]
      rfl
    have hcreate : s.create target.parent .directory = .error .exists := by
      rw [Store.create, h.locate_false]
      rfl
    rw [Store.ensureDirectory, hcreate, hdirectory]
    rfl
  rw [makeRoom, if_neg h.named, Store.createDirectories, Store.createDirectoriesWithin,
    if_neg h.named, hensure]

/-- A directory at a free name is made there. -/
theorem makeRoom_of_takes {l : Store.Located} (hd : target.parent.text ≠ "")
    (hl : s.locate false ⟨String.ofList (Path.trimEnd target.parent.text.toList)⟩ = .ok l)
    (htakes : l.Takes x) (hx : s.get? x = none) :
    makeRoom s target = (s.put x .directory, none) := by
  have hensure : s.ensureDirectory target.parent = (s.put x .directory, none) := by
    have hcreate : s.create target.parent .directory = .ok (s.put x .directory) := by
      rw [Store.create, hl]
      cases htakes with
      | file x c =>
          rw [(Store.locate_ok_iff.mp hl).2.get?_of_at (by simp)] at hx
          cases hx
      | free directory name => rfl
    rw [Store.ensureDirectory, hcreate]
  rw [makeRoom, if_neg hd, Store.createDirectories, Store.createDirectoriesWithin, if_neg hd,
    hensure]

/-- A text lands where the target led, if there is room. -/
theorem Lands.of_retains {l : Store.Located} (hroom : (makeRoom t target).2 = none)
    (hr : s.Retains (room t target)) (hcwd : (room t target).cwd = s.cwd)
    (hl : s.locate true target = .ok l) (htakes : l.Takes x)
    (hx : ∀ e, (room t target).get? x = some e → ∃ c, e = .file c) : Lands t target x :=
  ⟨hroom, hr.locate_takes hcwd hl htakes hx⟩

/-- A target in a directory that is there is steady. -/
theorem steady_of_room {l : Store.Located} (h : HasRoom s target y)
    (hl : s.locate true target = .ok l) (htakes : l.Takes x) (hx : plan.filled x) :
    Steady plan s target := by
  have hfile : ∀ e, s.get? x = some e → ∃ c, e = .file c :=
    fun e he => (lands_of_locate hl htakes).file_of_get? he
  refine .lands x (fun t hg => ?_) fun c hc => ?_
  · have hmake := (h.of_retains hg.retains hg.cwd_eq).makeRoom_eq
    have hroom : room t target = t := by rw [room, hmake]
    refine ⟨hroom.symm ▸ hg, .of_retains (s := s) (by rw [hmake]) ?_ ?_ hl htakes ?_⟩
    · exact hroom.symm ▸ hg.retains
    · exact hroom.symm ▸ hg.cwd_eq
    · exact hroom.symm ▸ hg.file_of_get? hx hfile
  · exact (Store.Grown.refl plan s).retains.locate_file rfl hl htakes hc

/-- A target in a directory that is made for it is steady, if this is planned. -/
theorem steady_of_new_room {l l' : Store.Located}
    (hfree : s.locate false ⟨String.ofList (Path.trimEnd target.parent.text.toList)⟩ = .ok l)
    (htakes : l.Takes y) (hy : s.get? y = none) (hmade : plan.made y) (hnot : ¬ plan.filled y)
    (h : HasRoom (s.put y .directory) target y)
    (hl : (s.put y .directory).locate true target = .ok l') (htakes' : l'.Takes x)
    (hx : plan.filled x) (hnone : s.get? x = none) : Steady plan s target := by
  have hne : y ≠ [] := (Store.locate_ok_iff.mp hfree).2.ne_nil htakes
  have hretains {u : Store} (hg : s.Grown plan u) (hu : u.get? y = some .directory) :
      (s.put y .directory).Retains u := by
    intro z e he
    by_cases hz : z = y
    · subst hz
      rw [Store.get?_put_self hne] at he
      exact .inl (he ▸ hu)
    · rw [Store.get?_put_of_ne hz] at he
      exact hg.retains z e he
  -- In every grown store there is room, or the same room is made.
  have hroom (t : Store) (hg : s.Grown plan t) : (makeRoom t target).2 = none ∧
      s.Grown plan (room t target) ∧ (room t target).get? y = some .directory := by
    rcases hg.directory_of_get? hnot hy with hn | hd
    · obtain ⟨l₁, hl₁, htakes₁⟩ := hg.retains.locate_takes hg.cwd_eq hfree htakes
        (fun e he => by rw [hn] at he; cases he)
      have hmake := makeRoom_of_takes h.named hl₁ htakes₁ hn
      rw [room, hmake]
      exact ⟨rfl, hg.put_directory hmade hnot hy, Store.get?_put_self hne _⟩
    · have hmake := (h.of_retains (hretains hg hd) hg.cwd_eq).makeRoom_eq
      rw [room, hmake]
      exact ⟨rfl, hg, hd⟩
  refine .lands x (fun t hg => ?_) fun c hc => ?_
  · obtain ⟨hmake, hgrown, hd⟩ := hroom t hg
    refine ⟨hgrown, .of_retains hmake (hretains hgrown hd) hgrown.cwd_eq hl htakes' ?_⟩
    refine hgrown.file_of_get? hx fun e he => ?_
    rw [hnone] at he
    cases he
  · rw [hnone] at hc
    cases hc

end Trellis.Placement
