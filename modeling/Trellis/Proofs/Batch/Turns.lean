import Trellis.Proofs.Batch.Succession

/-! # The turns of a run

What a run in which nothing is measured does with what stands in the store, turn by turn.

* `Batch.Always` says that something holds whenever the turn of a source comes, in the store that the
  sources before it left. `Batch.Fills` are the places at which a module comes to stand.
* `Batch.Turn` lists what may happen in a turn, if no write fails (`Batch.process_turn`).
* `Store.Renewed` says that everything stays but for generated files, which may be written anew.
  `Batch.run_renewed`: this is what a run does that uncovers no test written by hand. It leaves all
  places alone at which no module comes to stand (`Batch.run_get?_of_not_fills`). -/

namespace Trellis

variable {μ : Type}

namespace Store

/-! ### Generated files -/

/-- Whether everything that stands in a store stands in another, but for generated files: another one
may stand in the place of each. -/
structure Renewed (s t : Store) : Prop where
  /-- Relative paths are taken from the same directory. -/
  cwd_eq : t.cwd = s.cwd
  /-- What stands at a place. -/
  get?_of_some : ∀ x e, s.get? x = some e →
    t.get? x = some e ∨ (e.isKept = false ∧ ∃ e', t.get? x = some e' ∧ e'.isKept = false)

/-- A file that holds a text with the marker is generated. -/
theorem isKept_text {t : String} (h : Placement.carriesMarker t = true) :
    (Entry.file (.text t)).isKept = false := by
  rw [Entry.isKept, h, Bool.not_true]

/-- A generated file holds a text with the marker. -/
theorem exists_text_of_isKept {e : Entry} (h : e.isKept = false) :
    ∃ t, e = .file (.text t) ∧ Placement.carriesMarker t = true := by
  unfold Entry.isKept at h
  split at h
  · rename_i t
    exact ⟨t, rfl, by simpa using h⟩
  · cases h

namespace Renewed

variable {s t u : Store} {x : Place} {e : Entry}

theorem refl (s : Store) : s.Renewed s := ⟨rfl, fun _ _ he => .inl he⟩

theorem trans (h : s.Renewed t) (h' : t.Renewed u) : s.Renewed u := by
  refine ⟨h'.cwd_eq.trans h.cwd_eq, fun x e he => ?_⟩
  rcases h.get?_of_some x e he with ht | ⟨hk, e', ht, hk'⟩
  · exact h'.get?_of_some x e ht
  · rcases h'.get?_of_some x e' ht with hu | ⟨_, e'', hu, hk''⟩
    · exact .inr ⟨hk, e', hu, hk'⟩
    · exact .inr ⟨hk, e'', hu, hk''⟩

theorem retains (h : s.Renewed t) : s.Retains t := by
  intro x e he
  rcases h.get?_of_some x e he with ht | ⟨hk, e', ht, hk'⟩
  · exact .inl ht
  · obtain ⟨text, rfl, _⟩ := exists_text_of_isKept hk
    obtain ⟨text', rfl, _⟩ := exists_text_of_isKept hk'
    exact .inr ⟨_, _, rfl, ht⟩

/-- What must be left alone is left alone. -/
theorem spares (h : s.Renewed t) : s.Spares t := by
  intro x e he hk
  rcases h.get?_of_some x e he with ht | ⟨hk', _⟩
  · exact ht
  · rw [hk] at hk'
    cases hk'

/-- Where a generated file stands, one stands still. -/
theorem generated (h : s.Renewed t) (hx : ∃ e, s.get? x = some e ∧ e.isKept = false) :
    ∃ e, t.get? x = some e ∧ e.isKept = false := by
  obtain ⟨e, he, hk⟩ := hx
  rcases h.get?_of_some x e he with ht | ⟨_, ht⟩
  · exact ⟨e, ht, hk⟩
  · exact ht

end Renewed

end Store

namespace Batch

open Coverage

variable {b : Batch μ} {g : Progress μ} {p : Path} {paths ps : List Path} {s s' : Store}
  {o : Outcome} {x : Place}

/-! ### Whenever the turn of a source comes -/

/-- Whether something holds of every source and the store in which its turn comes. -/
def Always (b : Batch μ) (P : Store → Path → Prop) (g : Progress μ) (paths : List Path) : Prop :=
  ∀ before p after, paths = before ++ p :: after → P (b.run g before).1.world.store p

/-- Whether a place is one at which the module of a source comes to stand. -/
def Fills (b : Batch μ) (g : Progress μ) (paths : List Path) (x : Place) : Prop :=
  ∃ before p after, paths = before ++ p :: after ∧ b.LandsAt (b.run g before).1.world.store p x

theorem run_cons (b : Batch μ) (g : Progress μ) (p : Path) (ps : List Path) :
    (b.run g (p :: ps)).1 = (b.run (b.process g p).1 ps).1 ∧
      (b.run g (p :: ps)).2.files =
        ⟨p, (b.process g p).2⟩ :: (b.run (b.process g p).1 ps).2.files := by
  unfold run
  rw [processAll_cons]
  exact ⟨rfl, rfl⟩

theorem always_cons_iff {P : Store → Path → Prop} :
    b.Always P g (p :: ps) ↔ P g.world.store p ∧ b.Always P (b.process g p).1 ps := by
  constructor
  · intro h
    refine ⟨h [] p ps rfl, fun before q after heq => ?_⟩
    have hq := h (p :: before) q after (by rw [heq, List.cons_append])
    rw [(run_cons b g p before).1] at hq
    exact hq
  · rintro ⟨hp, hps⟩ before q after heq
    cases before with
    | nil =>
        obtain ⟨rfl, rfl⟩ := List.cons.inj heq
        exact hp
    | cons r before =>
        obtain ⟨rfl, rfl⟩ := List.cons.inj heq
        rw [(run_cons b g p before).1]
        exact hps before q after rfl

theorem fills_cons_iff : b.Fills g (p :: ps) x ↔
    b.LandsAt g.world.store p x ∨ b.Fills (b.process g p).1 ps x := by
  constructor
  · rintro ⟨before, q, after, heq, hq⟩
    cases before with
    | nil =>
        obtain ⟨rfl, rfl⟩ := List.cons.inj heq
        exact .inl hq
    | cons r before =>
        obtain ⟨rfl, rfl⟩ := List.cons.inj heq
        rw [(run_cons b g p before).1] at hq
        exact .inr ⟨before, q, after, rfl, hq⟩
  · rintro (hp | ⟨before, q, after, rfl, hq⟩)
    · exact ⟨[], p, ps, rfl, hp⟩
    · refine ⟨p :: before, q, after, rfl, ?_⟩
      rw [(run_cons b g p before).1]
      exact hq

/-! ### One turn -/

/-- Whether the module of a source could be written, if there was one. -/
def Outcome.IsWritten (o : Outcome) : Prop :=
  ∀ target code message, o ≠ .unwritable target code message

theorem isWritten_placed {components : List Component} {pass : Pass}
    {q : Placement} {feedback : Option Coverage.Report} :
    (b.placed p components pass q feedback).IsWritten := nofun

theorem isWritten_unreadable {code message : String} :
    Outcome.IsWritten (.unreadable code message) := nofun

/-- What may happen in a turn in which nothing is measured and no write fails. -/
inductive Turn (b : Batch μ) (s : Store) (p : Path) : Store → Outcome → Prop
  | unreadable {e : LoadFault} : Source.loadComponent s p = .error e →
      Turn b s p s (.unreadable LoadFault.code e.message)
  | noComponents {source : Source} : Source.loadComponent s p = .ok source →
      componentsIn s source = [] → Turn b s p s .noComponents
  | manual {source : Source} : Source.loadComponent s p = .ok source →
      componentsIn s source ≠ [] →
      Placement.check s (b.policy.targetPath p) = .ok .keep →
      Turn b s p s (.manualTest (b.policy.targetPath p))
  | generated {source : Source} {q : Placement} {x : Place} :
      Source.loadComponent s p = .ok source → componentsIn s source ≠ [] →
      Placement.check s (b.policy.targetPath p) = .ok q → q.mayWrite = true →
      Placement.Lands s (b.policy.targetPath p) x →
      Turn b s p
        ((Placement.room s (b.policy.targetPath p)).put x
          (.file (.text (b.suite p source (componentsIn s source) b.firstPass))))
        (b.placed p (componentsIn s source) b.firstPass q none)

/-- A write that is done found its target open, and its text lands where it leads. -/
theorem lands_of_write {target : Path} {text : String} {q : Placement}
    (h : Placement.write s target text = (s', .ok q)) :
    Placement.check s target = .ok q ∧ q.mayWrite = true ∧ ∃ x, Placement.Lands s target x ∧
      s' = (Placement.room s target).put x (.file (.text text)) := by
  obtain ⟨hpermit, hwrite⟩ := Placement.write_ok h
  obtain ⟨_, hcheck, hq⟩ := Placement.permit_ok_iff.mp hpermit
  obtain ⟨l, x, hl, htakes, rfl⟩ := Store.write_ok hwrite
  refine ⟨hcheck, hq, x, ⟨?_, l, hl, htakes⟩, rfl⟩
  cases hroom : (Placement.makeRoom s target).2 with
  | none => rfl
  | some e =>
      have hput : (Placement.put s target text).2 = some e := by
        unfold Placement.put
        rw [← hroom]
        split
        · rename_i hmake
          rw [hmake]
        · rename_i hmake
          rw [hmake] at hroom
          cases hroom
      rw [Placement.write_of_put_error hpermit hput, Prod.mk.injEq] at h
      exact absurd h.2 (by simp)

/-- Where the target may be written, a write fails only for want of room. -/
theorem exists_unwritten {w w' : World μ} {target : Path} {text : String} {q : Placement}
    {e : WriteFault} (hm : Placement.carriesMarker text = true)
    (hc : Placement.check w.store target = .ok q) (hq : q.mayWrite = true)
    (hw : w.write target text = (w', .error e)) :
    ∃ code message, unwritten target e = .unwritable target code message := by
  have hpermit : Placement.permit w.store target text = .ok q :=
    Placement.permit_ok_iff.mpr ⟨hm, hc, hq⟩
  rcases Placement.write_error (World.store_of_write hw) with ⟨hno, _⟩ | ⟨_, _, _, _, rfl⟩
  · rw [hpermit] at hno
    cases hno
  · exact ⟨_, _, rfl⟩

/-- What may happen to a source with components. -/
theorem place_turn (ht : b.tools = none) {w : World μ} {source : Source}
    (hs : Source.loadComponent w.store p = .ok source) (hne : componentsIn w.store source ≠ [])
    (hw : (b.place w p source (componentsIn w.store source)).2.IsWritten) :
    b.Turn w.store p (b.place w p source (componentsIn w.store source)).1.store
      (b.place w p source (componentsIn w.store source)).2 := by
  have hm := b.carriesMarker_suite p source (componentsIn w.store source) b.firstPass
  cases hc : Placement.check w.store (b.policy.targetPath p) with
  | error e =>
      rw [place_of_check_error hc] at hw
      exact absurd rfl (hw _ _ _)
  | ok q =>
      cases hq : q.mayWrite with
      | false =>
          cases q <;> cases hq
          rw [place_of_keep hc]
          exact .manual hs hne hc
      | true =>
          cases hwrite : w.write (b.policy.targetPath p)
              (b.suite p source (componentsIn w.store source) b.firstPass) with
          | mk w₁ r =>
              cases r with
              | error e =>
                  obtain ⟨_, _, hunwritten⟩ := exists_unwritten hm hc hq hwrite
                  rw [place_of_unwritten hc hq hwrite, hunwritten] at hw
                  exact absurd rfl (hw _ _ _)
              | ok placement =>
                  obtain ⟨hcheck, _, x, hx, hstore⟩ := lands_of_write (World.store_of_write hwrite)
                  obtain rfl := Except.ok.inj (hc.symm.trans hcheck)
                  rw [place_of_written hc hq hwrite, measured_of_none ht, hstore]
                  exact .generated hs hne hc hq hx

theorem process_turn (ht : b.tools = none) (hw : (b.process g p).2.IsWritten) :
    b.Turn g.world.store p (b.process g p).1.world.store (b.process g p).2 := by
  cases hs : Source.loadComponent g.world.store p with
  | error e =>
      obtain ⟨hworld, ho⟩ := process_of_unreadable (b := b) hs
      rw [hworld, ho]
      exact .unreadable hs
  | ok source =>
      by_cases hnil : componentsIn g.world.store source = []
      · obtain ⟨hworld, ho⟩ := process_of_nil (b := b) hs hnil
        rw [hworld, ho]
        exact .noComponents hs hnil
      · obtain ⟨hworld, ho⟩ := process_of_components (b := b) hs hnil
        rw [ho] at hw
        rw [hworld, ho]
        exact place_turn ht hs hnil hw

namespace Turn

/-- A turn renews what stands in the store, if it uncovers no test written by hand. -/
theorem renewed (h : b.Turn s p s' o)
    (hu : HasComponents s p → ¬ Placement.Uncovers s (b.policy.targetPath p)) :
    s.Renewed s' := by
  cases h with
  | unreadable => exact .refl s
  | noComponents => exact .refl s
  | manual => exact .refl s
  | @generated source q x hs hne hc hq hx =>
      have hm := b.carriesMarker_suite p source (componentsIn s source) b.firstPass
      have hwrite := hx.write_eq (Placement.permit_ok_iff.mpr ⟨hm, hc, hq⟩)
      have hspares := (Placement.write_spares_iff hwrite).mpr (hu ⟨source, hs, hne⟩)
      have hext := Placement.room_extends s (b.policy.targetPath p)
      obtain ⟨_, l, hl, htakes⟩ := hx
      have hne : x ≠ [] := (Store.locate_ok_iff.mp hl).2.ne_nil htakes
      refine ⟨(Store.cwd_put _ x _).trans hext.cwd_eq, fun y e he => ?_⟩
      by_cases hy : y = x
      · subst hy
        cases hk : e.isKept with
        | true => exact .inl (hspares y e he hk)
        | false => exact .inr ⟨rfl, _, Store.get?_put_self hne _, Store.isKept_text hm⟩
      · rw [Store.get?_put_of_ne hy]
        exact .inl (hext.get?_of_some he)

/-- A turn leaves alone what stands at places where no module comes to stand. -/
theorem get?_of_not_landsAt (h : b.Turn s p s' o) (hx : ¬ b.LandsAt s p x) {e : Entry}
    (he : s.get? x = some e) : s'.get? x = some e := by
  cases h with
  | unreadable => exact he
  | noComponents => exact he
  | manual => exact he
  | @generated source q y hs hne hc hq hy =>
      have hxy : x ≠ y := by
        rintro rfl
        exact hx ⟨⟨source, hs, hne⟩, hy⟩
      rw [Store.get?_put_of_ne hxy]
      exact (Placement.room_extends s (b.policy.targetPath p)).get?_of_some he

end Turn

/-! ### Many turns -/

/-- Whether no write of a run fails. -/
def WritesAll (b : Batch μ) (g : Progress μ) (paths : List Path) : Prop :=
  ∀ f ∈ (b.run g paths).2.files, f.outcome.IsWritten

theorem writesAll_nil : b.WritesAll g [] := fun _ hf => absurd hf List.not_mem_nil

theorem writesAll_cons_iff : b.WritesAll g (p :: ps) ↔
    (b.process g p).2.IsWritten ∧ b.WritesAll (b.process g p).1 ps := by
  unfold WritesAll
  rw [(run_cons b g p ps).2, List.forall_mem_cons]

/-- No write fails in the turn of a source. -/
theorem WritesAll.isWritten {before after : List Path}
    (h : b.WritesAll g (before ++ p :: after)) :
    (b.process (b.run g before).1 p).2.IsWritten := by
  induction before generalizing g with
  | nil => exact (writesAll_cons_iff.mp h).1
  | cons q before ih =>
      rw [(run_cons b g q before).1]
      exact ih (writesAll_cons_iff.mp h).2

/-- Whether no write of a run uncovers a test written by hand. -/
def UncoversNone (b : Batch μ) (g : Progress μ) (paths : List Path) : Prop :=
  b.Always (fun s p => HasComponents s p →
    ¬ Placement.Uncovers s (b.policy.targetPath p)) g paths

/-- A run renews what stands in the store. -/
theorem run_renewed (ht : b.tools = none) (hw : b.WritesAll g paths)
    (hu : b.UncoversNone g paths) : g.world.store.Renewed (b.run g paths).1.world.store := by
  induction paths generalizing g with
  | nil => exact .refl _
  | cons p ps ih =>
      obtain ⟨hwp, hwps⟩ := writesAll_cons_iff.mp hw
      obtain ⟨hup, hups⟩ := always_cons_iff.mp hu
      rw [(run_cons b g p ps).1]
      exact ((process_turn ht hwp).renewed hup).trans (ih hwps hups)

/-- A run leaves alone what stands at places where no module comes to stand. -/
theorem run_get?_of_not_fills (ht : b.tools = none) (hw : b.WritesAll g paths)
    (hx : ¬ b.Fills g paths x) {e : Entry} (he : g.world.store.get? x = some e) :
    (b.run g paths).1.world.store.get? x = some e := by
  induction paths generalizing g with
  | nil => exact he
  | cons p ps ih =>
      obtain ⟨hwp, hwps⟩ := writesAll_cons_iff.mp hw
      rw [fills_cons_iff, not_or] at hx
      rw [(run_cons b g p ps).1]
      exact ih hwps hx.2 ((process_turn ht hwp).get?_of_not_landsAt hx.1 he)

end Batch

end Trellis
