import Trellis.Proofs.Placement.Marker
import Trellis.Proofs.Store.Directories

/-! # The guard of a write

What a write may write over.

* `Entry.isKept` tells what must be left alone: everything but a text with the marker.
  `Store.Spares` says of two stores that all of it was left alone.
* `Placement.Open` says that nothing of this kind is at a target. A write that is done found its
  target open (`open_of_write`), and a write that fails adds directories at most
  (`extends_of_write_error`).
* The target is looked at before its directories are made. `Placement.Uncovers` says that making
  them lets the target lead to something that must be left alone. `write_spares_iff`: this is the
  one way in which a write does harm. `not_uncovers_of_down`: paths that never go up are safe. -/

namespace Trellis

/-- Whether an entry must be left alone. -/
def Entry.isKept : Entry → Bool
  | .file (.text t) => !Placement.carriesMarker t
  | _ => true

namespace Store

/-- Whether everything that must be left alone was left alone. -/
def Spares (s s' : Store) : Prop :=
  ∀ place e, s.get? place = some e → e.isKept = true → s'.get? place = some e

theorem Extends.spares {s s' : Store} (h : s.Extends s') : s.Spares s' :=
  fun _ _ he _ => h.get?_of_some he

theorem isDirectory_of_read_ok {s : Store} {p : Path} {c : Content} (h : s.read p = .ok c) :
    s.isDirectory p = false := by
  obtain ⟨place, hl⟩ := read_ok_iff.mp h
  rw [isDirectory, entry?, hl]
  rfl

end Store

namespace Placement

/-- Whether nothing that must be left alone is at a target. -/
def Open (s : Store) (target : Path) : Prop :=
  s.read target = .error .notFound ∨
    ∃ t, s.read target = .ok (.text t) ∧ carriesMarker t = true

/-- The store in which the file of a target is written: with the target's directories. -/
def room (s : Store) (target : Path) : Store := (makeRoom s target).1

/-- Whether nothing is at a target, but something that must be left alone once the target's
directories are made. -/
def Uncovers (s : Store) (target : Path) : Prop :=
  s.read target = .error .notFound ∧
    ∃ c, (room s target).read target = .ok c ∧ ofContent c = .keep

variable {s s' : Store} {target : Path} {text : String} {p : Placement}

theorem room_extends (s : Store) (target : Path) : s.Extends (room s target) := by
  unfold room makeRoom
  split
  · exact .refl s
  · have h := Store.createDirectories_extends s target.parent
    split
    · rename_i s₁ h₁
      rw [h₁] at h
      exact h
    · rename_i s₁ e h₁
      rw [h₁] at h
      exact h

theorem ofContent_eq_keep_iff {c : Content} :
    ofContent c = .keep ↔ (Entry.file c).isKept = true := by
  cases c with
  | text t => cases h : carriesMarker t <;> simp [ofContent, Entry.isKept, h]
  | binary bytes => simp [ofContent, Entry.isKept]

theorem ofContent_text (h : carriesMarker text = true) : ofContent (.text text) = .regenerate := by
  rw [ofContent, if_pos h]

/-! ### What a write does -/

theorem open_of_check (h : check s target = .ok p) (hp : p.mayWrite = true) : Open s target := by
  unfold check at h
  split at h
  · cases h
    cases hp
  · split at h
    · rename_i c hc
      cases h
      rcases c with t | bytes
      · refine .inr ⟨t, hc, ?_⟩
        cases ht : carriesMarker t with
        | true => rfl
        | false =>
            rw [ofContent, ht] at hp
            cases hp
      · cases hp
    · rename_i hn
      exact .inl hn
    · cases h

/-- What cannot be looked at is refused by the store. -/
theorem check_error {e : WriteFault} (h : check s target = .error e) :
    ∃ cause, e = .store target cause := by
  unfold check at h
  split at h
  · cases h
  · split at h
    · cases h
    · cases h
    · cases h
      exact ⟨_, rfl⟩

theorem permit_ok_iff : permit s target text = .ok p ↔
    carriesMarker text = true ∧ check s target = .ok p ∧ p.mayWrite = true := by
  unfold permit
  cases hm : carriesMarker text with
  | false => simp
  | true =>
      cases hc : check s target with
      | error e => simp
      | ok q =>
          cases hq : q.mayWrite with
          | false =>
              simp only [Bool.not_true, Bool.false_eq_true, if_false, hq, reduceCtorEq, true_and,
                Except.ok.injEq, false_iff, not_and, Bool.not_eq_true]
              rintro rfl
              exact hq
          | true =>
              simp only [Bool.not_true, Bool.false_eq_true, if_false, hq, if_true, true_and,
                Except.ok.injEq, iff_self_and]
              rintro rfl
              exact hq

theorem put_ok (h : put s target text = (s', none)) :
    (room s target).write target (.text text) = .ok s' := by
  unfold put at h
  split at h
  · cases h
  · rename_i s₁ hroom
    rw [room, hroom]
    split at h
    · rename_i s₂ hwrite
      cases h
      exact hwrite
    · cases h

theorem makeRoom_error {e : WriteFault} (h : makeRoom s target = (s', some e)) :
    ∃ q cause, e = .store q cause := by
  unfold makeRoom at h
  split at h
  · cases h
  · split at h
    · cases h
    · cases h
      exact ⟨_, _, rfl⟩

/-- A text that cannot be put at its target is refused by the store, and the store gets directories
at most. -/
theorem put_error {e : WriteFault} (h : put s target text = (s', some e)) :
    s.Extends s' ∧ ∃ q cause, e = .store q cause := by
  have hroom := room_extends s target
  unfold room at hroom
  unfold put at h
  split at h
  · rename_i s₁ e₁ h₁
    cases h
    rw [h₁] at hroom
    exact ⟨hroom, makeRoom_error h₁⟩
  · rename_i s₁ h₁
    rw [h₁] at hroom
    split at h
    · cases h
    · cases h
      exact ⟨hroom, _, _, rfl⟩

/-- A write that is done was allowed, and put the text at the target in a directory made for it. -/
theorem write_ok (h : write s target text = (s', .ok p)) :
    permit s target text = .ok p ∧ (room s target).write target (.text text) = .ok s' := by
  unfold write at h
  split at h
  · cases h
  · rename_i q hpermit
    split at h
    · rename_i s₁ hput
      cases h
      exact ⟨hpermit, put_ok hput⟩
    · cases h

/-- A write that is allowed is done if there is room for the text. -/
theorem write_of_permit (hp : permit s target text = .ok p) (hroom : (makeRoom s target).2 = none)
    (hw : (room s target).write target (.text text) = .ok s') :
    write s target text = (s', .ok p) := by
  unfold write
  rw [hp]
  unfold put
  dsimp only
  cases hm : makeRoom s target with
  | mk s₁ r =>
      rw [room, hm] at hw
      rw [hm] at hroom
      dsimp only at hw hroom
      subst hroom
      dsimp only
      rw [hw]

/-- A write that fails was not allowed and changed nothing, or the store refused it. -/
theorem write_error {e : WriteFault} (h : write s target text = (s', .error e)) :
    (permit s target text = .error e ∧ s' = s) ∨
      ((∃ p, permit s target text = .ok p) ∧ s.Extends s' ∧ ∃ q cause, e = .store q cause) := by
  unfold write at h
  split at h
  · rename_i hpermit
    cases h
    exact .inl ⟨hpermit, rfl⟩
  · rename_i q hpermit
    split at h
    · cases h
    · rename_i s₁ e₁ hput
      cases h
      exact .inr ⟨⟨q, hpermit⟩, put_error hput⟩

/-- A write that fails adds directories at most. -/
theorem extends_of_write_error {e : WriteFault} (h : write s target text = (s', .error e)) :
    s.Extends s' := by
  rcases write_error h with ⟨_, rfl⟩ | ⟨_, hs, _⟩
  · exact .refl s'
  · exact hs

/-- A write of a text with the marker never fails for want of it. -/
theorem ne_missingMarker_of_write_error {e : WriteFault}
    (h : write s target text = (s', .error e)) (hm : carriesMarker text = true) (q : Path) :
    e ≠ .missingMarker q := by
  rcases write_error h with ⟨hpermit, _⟩ | ⟨_, _, q', cause, rfl⟩
  · unfold permit at hpermit
    rw [hm, Bool.not_true, if_neg Bool.false_ne_true] at hpermit
    split at hpermit
    · rename_i e' hcheck
      cases hpermit
      obtain ⟨cause, rfl⟩ := check_error hcheck
      simp
    · split at hpermit
      · cases hpermit
      · cases hpermit
        simp
  · simp

/-- A write that is done found its target open. -/
theorem open_of_write (h : write s target text = (s', .ok p)) : Open s target := by
  obtain ⟨_, hc, hp⟩ := permit_ok_iff.mp (write_ok h).1
  exact open_of_check hc hp

/-- What was written at a target is read there. -/
theorem read_of_write (h : write s target text = (s', .ok p)) :
    s'.read target = .ok (.text text) :=
  Store.read_of_write (write_ok h).2

theorem check_of_read_ok {c : Content} (h : s.read target = .ok c) :
    check s target = .ok (ofContent c) := by
  rw [check, Store.isDirectory_of_read_ok h, if_neg Bool.false_ne_true, h]

/-- A file with the marker may be replaced. -/
theorem check_of_read (h : s.read target = .ok (.text text)) (hm : carriesMarker text = true) :
    check s target = .ok .regenerate := by
  rw [check_of_read_ok h, ofContent_text hm]

/-! ### What a write may harm -/

/-- When a file is written, its target is open exactly if making room did not uncover anything. -/
theorem open_room_iff (h : write s target text = (s', .ok p)) :
    Open (room s target) target ↔ ¬ Uncovers s target := by
  constructor
  · rintro hopen ⟨_, c, hc, hk⟩
    rcases hopen with hn | ⟨t, ht, hm⟩
    · rw [hn] at hc
      cases hc
    · rw [ht] at hc
      cases hc
      rw [ofContent_text hm] at hk
      cases hk
  · intro hu
    rcases open_of_write h with hn | ⟨t, ht, hm⟩
    · obtain ⟨l, place, hl, htakes, _⟩ := Store.write_ok (write_ok h).2
      cases htakes with
      | free directory name =>
          left
          rw [Store.read, hl]
          rfl
      | file place c =>
          have hc := Store.read_ok_iff.mpr ⟨place, hl⟩
          have hkeep : ofContent c ≠ .keep := fun hk => hu ⟨hn, c, hc, hk⟩
          right
          rcases c with t | bytes
          · refine ⟨t, hc, ?_⟩
            cases hm : carriesMarker t with
            | true => rfl
            | false =>
                rw [ofContent, hm] at hkeep
                exact absurd rfl hkeep
          · exact absurd rfl hkeep
    · exact .inr ⟨t, (room_extends s target).read_ok ht, hm⟩

/-- A write that is done leaves alone what must be left alone, unless making room uncovers it. -/
theorem write_spares_iff (h : write s target text = (s', .ok p)) :
    s.Spares s' ↔ ¬ Uncovers s target := by
  obtain ⟨hpermit, hw⟩ := write_ok h
  have hm := (permit_ok_iff.mp hpermit).1
  have hroom := room_extends s target
  obtain ⟨l, place, hl, htakes, rfl⟩ := Store.write_ok hw
  have hplace := (Store.locate_ok_iff.mp hl).2.ne_nil htakes
  constructor
  -- What is uncovered stood there before the directories were made, and is written over.
  · rintro hs ⟨_, c, hc, hk⟩
    obtain ⟨q, hq⟩ := Store.read_ok_iff.mp hc
    rw [hl] at hq
    cases hq
    cases htakes
    have hget := (Store.locate_ok_iff.mp hl).2.get?_of_at (by simp)
    have hold := hroom.get?_back hget (by simp)
    have hnew := hs _ _ hold (ofContent_eq_keep_iff.mp hk)
    rw [Store.get?_put_self hplace] at hnew
    cases hnew
    rw [ofContent_text hm] at hk
    cases hk
  · intro hu q e he hk
    have hr := hroom.get?_of_some he
    by_cases hq : q = place
    · subst hq
      cases htakes with
      | free directory name =>
          rw [(Store.locate_ok_iff.mp hl).2.get?_of_free] at hr
          cases hr
      | file q c =>
          rw [(Store.locate_ok_iff.mp hl).2.get?_of_at (by simp)] at hr
          cases hr
          rcases (open_room_iff h).mpr hu with hn | ⟨t, ht, hmt⟩
          · rw [Store.read_ok_iff.mpr ⟨q, hl⟩] at hn
            cases hn
          · rw [Store.read_ok_iff.mpr ⟨q, hl⟩] at ht
            cases ht
            rw [Entry.isKept, hmt] at hk
            cases hk
    · rw [Store.get?_put_of_ne hq]
      exact hr

/-- Making room uncovers nothing for a target that never goes up, if no link does. -/
theorem not_uncovers_of_down (tree : s.IsTree) (down : s.LinksGoDown)
    (hup : ".." ∉ Store.steps target.text) : ¬ Uncovers s target := by
  rintro ⟨hn, c, hc, _⟩
  rw [(room_extends s target).read_back tree down hup hc] at hn
  cases hn

end Placement

end Trellis
