import Trellis.Proofs.Placement.Steady
import Trellis.Proofs.Store.Passes

/-! # Targets aside of a place

Writes in stores that are the same but for one place which the target does not pass.

* `Placement.Aside` says that the way of a target, with its directories made, does not pass a place.
* `Aside.write`: then a write ends alike in both stores, and leaves the place as it is in each. -/

namespace Trellis

namespace Placement

open Store (Alike SameBut)

variable {s t : Store} {target : Path} {x : Place}

/-- Whether the way of a target, with its directories made, does not pass a place. -/
def Aside (s : Store) (target : Path) (x : Place) : Prop :=
  ¬ (room s target).Passes true target x

/-- A target is never the empty path. -/
theorem Policy.text_targetPath_ne_empty (p : Policy) (source : Path) :
    (p.targetPath source).text ≠ "" := by
  refine Path.text_join_ne_empty _ ?_
  simp [fileName]

/-- A target that can be looked at is a path that can be followed. -/
theorem isPath_of_check {p : Placement} (htext : target.text ≠ "")
    (hc : check s target = .ok p) : Store.IsPath target := by
  by_contra hno
  obtain ⟨e, he, hne⟩ := Store.locate_error_of_not_isPath htext hno s true
  rw [check_of_stuck he hne] at hc
  cases hc

/-- Room is made by making the directory of the target. -/
theorem makeRoom_eq (h : target.parent.text ≠ "") :
    makeRoom s target = ((s.createDirectories target.parent).1,
      (s.createDirectories target.parent).2.map (.store target.parent)) := by
  unfold makeRoom
  rw [if_neg h]
  split
  · rename_i heq
    rw [heq, Option.map_none]
  · rename_i heq
    rw [heq, Option.map_some]

/-- Where there are no links, a target lies aside of every place whose name its path does not name. -/
theorem aside_of_name {name : String} (hlinks : ∀ e ∈ (room s target).entries, ∀ q, e.2 ≠ .link q)
    (hname : name ∉ Store.route target) : Aside s target (x ++ [name]) := by
  rintro ⟨_, hlooks⟩
  obtain ⟨z, name', hmem, heq⟩ := hlooks.exists_name (Store.get?_ne_link hlinks)
  obtain rfl : name = name' := by simpa using congrArg List.getLast? heq
  exact hname hmem

namespace Aside

theorem not_passes (hx : Aside s target x) : ¬ s.Passes true target x :=
  fun hy => hx (hy.of_extends (room_extends s target))

/-- The target is looked at alike. -/
theorem check_eq (hx : Aside s target x) (h : s.SameBut x t) :
    check t target = check s target := by
  unfold check
  rw [h.isDirectory_eq hx.not_passes, h.read_eq hx.not_passes]

/-- The same directories are made. -/
theorem makeRoom (hx : Aside s target x) (h : s.SameBut x t)
    (hpath : target.text ≠ "" → Store.IsPath target) :
    Alike x s t (makeRoom s target) (makeRoom t target) := by
  by_cases htext : target.parent.text = ""
  · unfold Placement.makeRoom
    rw [if_pos htext, if_pos htext]
    exact h.alike none
  · obtain ⟨q, hparent⟩ : ∃ q, target.parent? = some q := by
      cases hparent : target.parent? with
      | none =>
          rw [Path.parent, hparent] at htext
          exact absurd rfl htext
      | some q => exact ⟨q, rfl⟩
    have hq : target.parent = q := by rw [Path.parent, hparent, Option.getD_some]
    have htarget : target.text ≠ "" := by
      intro hempty
      obtain ⟨hne, _⟩ := Path.parent?_eq_some_iff.mp hparent
      rw [hempty] at hne
      exact hne (by decide)
    unfold Aside room at hx
    rw [makeRoom_eq htext, hq] at hx
    rw [makeRoom_eq htext, makeRoom_eq htext, hq]
    have hmade : Alike x s t (s.createDirectories q) (t.createDirectories q) :=
      h.createDirectoriesWithin _ (Path.isTrimmed_of_parent? hparent) fun hy =>
        hx (Store.Passes.of_parent? hparent (hpath htarget) hy)
    exact ⟨by rw [hmade.result_eq], hmade.same, hmade.left_eq, hmade.right_eq⟩

/-- A text is put alike. -/
theorem put (hx : Aside s target x) (h : s.SameBut x t)
    (hpath : target.text ≠ "" → Store.IsPath target) (text : String) :
    Alike x s t (put s target text) (put t target text) := by
  have hroom := hx.makeRoom h hpath
  unfold Aside room at hx
  unfold Placement.put
  cases hs : Placement.makeRoom s target with
  | mk s₁ r =>
      cases ht : Placement.makeRoom t target with
      | mk t₁ r' =>
          rw [hs] at hx
          rw [hs, ht] at hroom
          obtain rfl : r' = r := hroom.result_eq
          cases r' with
          | some e => exact hroom
          | none =>
              dsimp only
              rcases hroom.same.write hx (.text text) with ⟨e, hw, hw'⟩ | ⟨y, hy, hw, hw'⟩
              · rw [hw, hw']
                exact hroom.trans (hroom.same.alike _)
              · rw [hw, hw']
                exact hroom.trans (hroom.same.alike_put hy _ none)

/-- A write ends alike in both stores, and leaves the place as it is in each. -/
theorem write (hx : Aside s target x) (h : s.SameBut x t) (htext : target.text ≠ "")
    (text : String) : Alike x s t (write s target text) (write t target text) := by
  have hpermit := permit_congr (hx.check_eq h) text
  unfold Placement.write
  rw [hpermit]
  cases hp : permit s target text with
  | error e => exact h.alike _
  | ok p =>
      obtain ⟨_, hc, _⟩ := permit_ok_iff.mp hp
      have hput := hx.put h (fun _ => isPath_of_check htext hc) text
      dsimp only
      cases hs : Placement.put s target text with
      | mk s₁ r =>
          cases ht : Placement.put t target text with
          | mk t₁ r' =>
              rw [hs, ht] at hput
              obtain rfl : r' = r := hput.result_eq
              cases r' with
              | none => exact ⟨rfl, hput.same, hput.left_eq, hput.right_eq⟩
              | some e => exact ⟨rfl, hput.same, hput.left_eq, hput.right_eq⟩

end Aside

/-- Relative paths are taken from the same directory after a write. -/
theorem cwd_write (s : Store) (target : Path) (text : String) :
    (write s target text).1.cwd = s.cwd := by
  cases hw : write s target text with
  | mk s' r =>
      cases r with
      | error e => exact (extends_of_write_error hw).cwd_eq
      | ok p =>
          obtain ⟨l, y, hl, htakes, rfl⟩ := Store.write_ok (write_ok hw).2
          exact (Store.cwd_put _ y _).trans (room_extends s target).cwd_eq

/-- A write leaves directories and links as they were. -/
theorem keeps_write (s : Store) (target : Path) (text : String) :
    s.Keeps (write s target text).1 := by
  cases hw : write s target text with
  | mk s' r =>
      cases r with
      | error e => exact (extends_of_write_error hw).retains.keeps
      | ok p =>
          obtain ⟨l, y, hl, htakes, rfl⟩ := Store.write_ok (write_ok hw).2
          intro z e he hfile
          have hroom := (room_extends s target).get?_of_some he
          exact Store.keeps_put (Store.locate_ok_iff.mp hl).2 htakes _ hroom hfile

end Placement

end Trellis
