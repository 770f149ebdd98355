import Trellis.Proofs.Batch.Ways
import Trellis.Proofs.Contract.Alike
import Trellis.Proofs.Placement.Steady

/-! # One source after others

What becomes of a source when others came before it in a run in which nothing is measured.

* `Batch.place_of_none`: what becomes of a module is what becomes of its write.
* `Batch.plan` is what a run may add to a store: the directories of the targets and the files there.
  `Batch.Separate` says that this interferes with nothing: the targets are different files, no path
  that is read comes to be a file or is one that is written, and the targets are steady.
* `Batch.After` says what a store holds after some sources: at each of their targets what the source
  leaves there alone, and all other files as they were. `Batch.process_after` is the step,
  `Batch.processAll_after` the run. -/

namespace Trellis

variable {μ : Type}

namespace Batch

open Coverage

/-! ### What a run may add -/

/-- Whether a source has components, so that a module is placed for it. -/
def HasComponents (s : Store) (p : Path) : Prop :=
  ∃ source, Source.loadComponent s p = .ok source ∧ componentsIn s source ≠ []

/-- A source that is seen alike has components in both stores. -/
theorem hasComponents_of_seesAlike {s t : Store} {p : Path} (h : s.SeesAlike t p)
    (hhas : HasComponents s p) : HasComponents t p := by
  obtain ⟨source, hs, hne⟩ := hhas
  refine ⟨source, h.loadComponent_eq.trans hs, ?_⟩
  unfold componentsIn
  rw [h.components_eq hs]
  exact hne

/-- Whether the module of a source comes to stand at a place. -/
def LandsAt (b : Batch μ) (s : Store) (p : Path) (x : Place) : Prop :=
  HasComponents s p ∧ Placement.Lands s (b.policy.targetPath p) x

/-- What a run over sources may add to a store: the directories that are made for their targets, and
the files at the targets. -/
def plan (b : Batch μ) (s : Store) (paths : List Path) : Store.Plan :=
  { made := fun x => ∃ p ∈ paths, HasComponents s p ∧
      (Placement.room s (b.policy.targetPath p)).get? x = some .directory
    filled := fun x => ∃ p ∈ paths, b.LandsAt s p x }

/-- Whether the modules of two sources come to stand at different places. -/
def Apart (b : Batch μ) (s : Store) (p q : Path) : Prop :=
  ∀ x, b.LandsAt s p x → ¬ b.LandsAt s q x

/-- Whether sources have nothing to do with each other: what a run over them may add to the store
makes no difference for any of them. -/
structure Separate (b : Batch μ) (s : Store) (paths : List Path) : Prop where
  /-- Different sources have different targets. -/
  targets : paths.Pairwise (b.Apart s)
  /-- No source is a target, nor comes to be a file. -/
  sources : ∀ p ∈ paths, s.Settled (b.plan s paths) p
  /-- No path that is looked at for an import is a target, nor comes to be a file. -/
  imports : ∀ p ∈ paths, ∀ source, Source.loadComponent s p = .ok source →
    ∀ m, source.Imports s.modules m → ∀ name specifier imported,
      TypeMember.import? m name = some (specifier, imported) →
        ∀ q, s.Tries m.path specifier q → s.Settled (b.plan s paths) q
  /-- The targets are steady. -/
  steady : ∀ p ∈ paths, HasComponents s p →
    Placement.Steady (b.plan s paths) s (b.policy.targetPath p)

theorem Apart.symm {b : Batch μ} {s : Store} {p q : Path} (h : b.Apart s p q) : b.Apart s q p :=
  fun x hq hp => h x hp hq

/-! ### One source -/

/-- Whether a source failed or was skipped. -/
def Outcome.IsIdle (o : Outcome) : Prop :=
  ∀ target names pass placement feedback, o ≠ .generated target names pass placement feedback

section one
variable {b : Batch μ} {g : Progress μ} {p : Path} {source : Source}

theorem process_of_unreadable {e : LoadFault}
    (h : Source.loadComponent g.world.store p = .error e) :
    (b.process g p).1.world = g.world ∧
      (b.process g p).2 = .unreadable LoadFault.code e.message := by
  rcases b.process_cases g p with ⟨e', he, hw, ho⟩ | ⟨source, hs, _⟩
  · rw [h] at he
    cases he
    exact ⟨hw, ho⟩
  · rw [h] at hs
    cases hs

theorem process_of_nil (hs : Source.loadComponent g.world.store p = .ok source)
    (hnil : componentsIn g.world.store source = []) :
    (b.process g p).1.world = g.world ∧ (b.process g p).2 = .noComponents := by
  unfold process
  have hworld := read_world g p
  have hread := read_eq g p
  cases hg : read g p with
  | mk g₁ r =>
      rw [hg] at hworld hread
      dsimp only at hworld hread
      rw [hread, hs]
      unfold componentsIn at hnil
      dsimp only [analyze]
      rw [hworld, hnil]
      exact ⟨rfl, rfl⟩

theorem process_of_components (hs : Source.loadComponent g.world.store p = .ok source)
    (hne : componentsIn g.world.store source ≠ []) :
    (b.process g p).1.world =
        (b.place g.world p source (componentsIn g.world.store source)).1 ∧
      (b.process g p).2 =
        (b.place g.world p source (componentsIn g.world.store source)).2 := by
  rcases b.process_cases g p with ⟨e, he, _⟩ | ⟨source', hs', ⟨hnil, _⟩ | hplace⟩
  · rw [hs] at he
    cases he
  · rw [hs] at hs'
    cases hs'
    exact absurd hnil hne
  · rw [hs] at hs'
    cases hs'
    exact hplace

/-- What becomes of a module that is not measured, by what a look at its target gave and by how its
write ended. -/
def outcomeOf (b : Batch μ) (p : Path) (components : List Component) :
    (check write : Except WriteFault Placement) → Outcome
  | .error e, _ => .unwritable (b.policy.targetPath p) WriteFault.code e.message
  | .ok .keep, _ => .manualTest (b.policy.targetPath p)
  | .ok _, .error e => unwritten (b.policy.targetPath p) e
  | .ok _, .ok placement => b.placed p components b.firstPass placement none

/-- When nothing is measured, what becomes of a module is what becomes of its write. -/
theorem place_of_none (ht : b.tools = none) (w : World μ) (p : Path) (source : Source)
    (components : List Component) :
    (b.place w p source components).1.store =
        (Placement.write w.store (b.policy.targetPath p)
          (b.suite p source components b.firstPass)).1 ∧
      (b.place w p source components).2 =
        b.outcomeOf p components (Placement.check w.store (b.policy.targetPath p))
          (Placement.write w.store (b.policy.targetPath p)
            (b.suite p source components b.firstPass)).2 := by
  have hm := b.carriesMarker_suite p source components b.firstPass
  cases hc : Placement.check w.store (b.policy.targetPath p) with
  | error e =>
      rw [place_of_check_error hc, Placement.write_of_permit_error (e := e)]
      · exact ⟨rfl, rfl⟩
      · rw [Placement.permit, hm, Bool.not_true, if_neg Bool.false_ne_true, hc]
  | ok q =>
      cases hq : q.mayWrite with
      | false =>
          cases q <;> cases hq
          rw [place_of_keep hc,
            Placement.write_of_permit_error (e := .manualTestPresent (b.policy.targetPath p))]
          · exact ⟨rfl, rfl⟩
          · rw [Placement.permit, hm, Bool.not_true, if_neg Bool.false_ne_true, hc]
            rfl
      | true =>
          cases hw : w.write (b.policy.targetPath p) (b.suite p source components b.firstPass) with
          | mk w₁ r =>
              rw [World.store_of_write hw]
              cases r with
              | error e =>
                  rw [place_of_unwritten hc hq hw]
                  cases q <;> first | exact ⟨rfl, rfl⟩ | cases hq
              | ok placement =>
                  rw [place_of_written hc hq hw, measured_of_none ht]
                  cases q <;> first | exact ⟨rfl, rfl⟩ | cases hq

/-- A source that failed or was skipped leaves all files as they were. -/
theorem sameFiles_of_idle (ht : b.tools = none) (ho : (b.process g p).2.IsIdle) :
    g.world.store.SameFiles (b.process g p).1.world.store := by
  rcases b.process_cases g p with ⟨_, _, hw, _⟩ | ⟨source, _, ⟨_, hw, _⟩ | ⟨hw, hplace⟩⟩
  · rw [hw]
    exact .refl _
  · rw [hw]
    exact .refl _
  · obtain ⟨hstore, houtcome⟩ := place_of_none ht g.world p source
      (componentsIn g.world.store source)
    rw [hw, hstore]
    cases hwrite : Placement.write g.world.store (b.policy.targetPath p)
        (b.suite p source (componentsIn g.world.store source) b.firstPass) with
    | mk s' r =>
        cases r with
        | error e => exact (Placement.extends_of_write_error hwrite).sameFiles
        | ok placement =>
            obtain ⟨_, hc, hq⟩ := Placement.permit_ok_iff.mp (Placement.write_ok hwrite).1
            rw [hwrite, hc] at houtcome
            rw [houtcome] at hplace
            cases placement with
            | keep => cases hq
            | create => exact absurd hplace (ho _ _ _ _ _)
            | regenerate => exact absurd hplace (ho _ _ _ _ _)

/-- The outcomes of a module that is placed. -/
theorem place_outcome (ht : b.tools = none) (w : World μ) (p : Path) (source : Source)
    (components : List Component) :
    ((b.place w p source components).2 = .manualTest (b.policy.targetPath p) ∨
      ∃ code message,
        (b.place w p source components).2 = .unwritable (b.policy.targetPath p) code message) ∨
    ∃ placement, Placement.check w.store (b.policy.targetPath p) = .ok placement ∧
      (b.place w p source components).2 = b.placed p components b.firstPass placement none := by
  obtain ⟨_, ho⟩ := place_of_none ht w p source components
  rw [ho]
  cases hc : Placement.check w.store (b.policy.targetPath p) with
  | error e => exact .inl (.inr ⟨_, _, rfl⟩)
  | ok q =>
      cases hw : Placement.write w.store (b.policy.targetPath p)
          (b.suite p source components b.firstPass) with
      | mk s' r =>
          cases r with
          | error e =>
              left
              cases q <;> cases e <;> first | exact .inl rfl | exact .inr ⟨_, _, rfl⟩
          | ok placement =>
              obtain ⟨_, hcheck, hq⟩ := Placement.permit_ok_iff.mp (Placement.write_ok hw).1
              rw [hc] at hcheck
              cases hcheck
              right
              cases q <;> first | exact ⟨_, rfl, rfl⟩ | cases hq

/-- The placement that is reported is the one that was looked up. -/
theorem check_of_generated (ht : b.tools = none) {target : Path} {names : List String} {pass : Pass}
    {placement : Placement} {feedback : Option Coverage.Report}
    (h : (b.process g p).2 = .generated target names pass placement feedback) :
    Placement.check g.world.store (b.policy.targetPath p) = .ok placement := by
  rcases b.process_cases g p with ⟨_, _, _, ho⟩ | ⟨source, _, ⟨_, _, ho⟩ | ⟨_, ho⟩⟩
  · rw [ho] at h
    cases h
  · rw [ho] at h
    cases h
  · rw [ho] at h
    rcases place_outcome ht g.world p source (componentsIn g.world.store source) with
      (ho' | ⟨_, _, ho'⟩) | ⟨placement', hc, ho'⟩
    · rw [ho'] at h
      cases h
    · rw [ho'] at h
      cases h
    · rw [ho'] at h
      cases h
      exact hc

/-- A source that is reported as unreadable cannot be read. -/
theorem load_of_unreadable (ht : b.tools = none) {code message : String}
    (h : (b.process g p).2 = .unreadable code message) :
    ∃ e, Source.loadComponent g.world.store p = .error e := by
  rcases b.process_cases g p with ⟨e, he, _⟩ | ⟨source, _, ⟨_, _, ho⟩ | ⟨_, ho⟩⟩
  · exact ⟨e, he⟩
  · rw [ho] at h
    cases h
  · rw [ho] at h
    rcases place_outcome ht g.world p source (componentsIn g.world.store source) with
      (ho' | ⟨_, _, ho'⟩) | ⟨_, _, ho'⟩
    · rw [ho'] at h
      cases h
    · rw [ho'] at h
      cases h
    · rw [ho'] at h
      cases h

/-- A module that is written stands where the target leads. -/
theorem process_of_lands (ht : b.tools = none) {source : Source} {x : Place} {q : Placement}
    (hs : Source.loadComponent g.world.store p = .ok source)
    (hne : componentsIn g.world.store source ≠ [])
    (hl : Placement.Lands g.world.store (b.policy.targetPath p) x)
    (hc : Placement.check g.world.store (b.policy.targetPath p) = .ok q) (hq : q.mayWrite = true) :
    (b.process g p).1.world.store =
        (Placement.room g.world.store (b.policy.targetPath p)).put x (.file (.text
          (b.suite p source (componentsIn g.world.store source) b.firstPass))) ∧
      (b.process g p).2 = b.placed p (componentsIn g.world.store source) b.firstPass q none := by
  obtain ⟨hw, ho⟩ := process_of_components (b := b) hs hne
  obtain ⟨hstore, houtcome⟩ := place_of_none ht g.world p source
    (componentsIn g.world.store source)
  have hwrite := hl.write_eq (Placement.permit_ok_iff.mpr
    ⟨b.carriesMarker_suite p source (componentsIn g.world.store source) b.firstPass, hc, hq⟩)
  rw [hw, ho, hstore, houtcome, hwrite, hc]
  cases q <;> first | exact ⟨rfl, rfl⟩ | cases hq

end one

/-! ### One source after others -/

/-- What a store holds after some sources of a run. -/
structure After (b : Batch μ) (g : Progress μ) (paths done : List Path) (t : Store) : Prop where
  /-- No more was added than was planned. -/
  grown : g.world.store.Grown (b.plan g.world.store paths) t
  /-- At the target of a source stands what the source leaves there alone. -/
  file_of_landsAt : ∀ p ∈ done, ∀ x, b.LandsAt g.world.store p x → ∀ c,
    t.get? x = some (.file c) ↔ (b.process g p).1.world.store.get? x = some (.file c)
  /-- All other files are as they were. -/
  file_of_not_landsAt : ∀ x, (∀ p ∈ done, ¬ b.LandsAt g.world.store p x) → ∀ c,
    t.get? x = some (.file c) ↔ g.world.store.get? x = some (.file c)

namespace After

variable {b : Batch μ} {g : Progress μ} {paths done : List Path} {t t' : Store} {p : Path}

theorem start (b : Batch μ) (g : Progress μ) (paths : List Path) :
    b.After g paths [] g.world.store :=
  ⟨.refl _ _, nofun, fun _ _ _ => Iff.rfl⟩

/-- The order of the sources is of no account. -/
theorem of_mem {done' : List Path} (h : b.After g paths done t) (hmem : ∀ p, p ∈ done' ↔ p ∈ done) :
    b.After g paths done' t :=
  ⟨h.grown, fun p hp => h.file_of_landsAt p ((hmem p).mp hp),
    fun x hx => h.file_of_not_landsAt x fun p hp => hx p ((hmem p).mpr hp)⟩

/-- A source without components adds nothing. -/
theorem skip (h : b.After g paths done t) (hp : ¬ HasComponents g.world.store p) :
    b.After g paths (p :: done) t := by
  refine ⟨h.grown, fun q hq x hx => ?_, fun x hx => ?_⟩
  · rcases List.mem_cons.mp hq with rfl | hq
    · exact absurd hx.1 hp
    · exact h.file_of_landsAt q hq x hx
  · exact h.file_of_not_landsAt x fun q hq => hx q (List.mem_cons_of_mem _ hq)

/-- Nothing was put where a further source will put its module. -/
theorem untouched (h : b.After g paths done t) (hp : HasComponents g.world.store p)
    (hdone : ∀ q ∈ done, b.Apart g.world.store q p) :
    Placement.Untouched g.world.store t (b.policy.targetPath p) :=
  fun x hx => h.file_of_not_landsAt x fun q hq hqx => hdone q hq x hqx ⟨hp, hx⟩

/-- A further source adds what it adds alone. -/
theorem place (h : b.After g paths done t) (hp : HasComponents g.world.store p)
    (hdone : ∀ q ∈ done, b.Apart g.world.store q p)
    (hf : Placement.Follows (b.plan g.world.store paths) g.world.store t (b.policy.targetPath p)
      (b.process g p).1.world.store t') :
    b.After g paths (p :: done) t' := by
  refine ⟨hf.grown, fun q hq x hx c => ?_, fun x hx c => ?_⟩
  · rcases List.mem_cons.mp hq with rfl | hq
    · exact hf.file_of_lands x hx.2 c
    · rw [hf.file_of_not_lands x fun hpx => hdone q hq x hx ⟨hp, hpx⟩]
      exact h.file_of_landsAt q hq x hx c
  · rw [hf.file_of_not_lands x fun hpx => hx p List.mem_cons_self ⟨hp, hpx⟩]
    exact h.file_of_not_landsAt x (fun q hq => hx q (List.mem_cons_of_mem _ hq)) c

/-- Sources that leave all files alone as they were make no difference for the files. -/
theorem sameFiles {done' : List Path} (h : b.After g paths done t) (h' : b.After g paths done' t')
    (hmem : ∀ p ∈ done', p ∈ done)
    (hrest : ∀ p ∈ done, p ∈ done' ∨
      g.world.store.SameFiles (b.process g p).1.world.store) : t.SameFiles t' := by
  intro x c
  by_cases hx' : ∃ p ∈ done', b.LandsAt g.world.store p x
  · obtain ⟨p, hp, hx⟩ := hx'
    rw [h'.file_of_landsAt p hp x hx, h.file_of_landsAt p (hmem p hp) x hx]
  · have hfree' : ∀ p ∈ done', ¬ b.LandsAt g.world.store p x :=
      fun p hp hx => hx' ⟨p, hp, hx⟩
    rw [h'.file_of_not_landsAt x hfree']
    by_cases hx : ∃ p ∈ done, b.LandsAt g.world.store p x
    · obtain ⟨p, hp, hx⟩ := hx
      rcases hrest p hp with hp' | hsame
      · exact absurd hx (hfree' p hp')
      · rw [h.file_of_landsAt p hp x hx, hsame x c]
    · rw [h.file_of_not_landsAt x fun p hp hpx => hx ⟨p, hp, hpx⟩]

end After

section after
variable {b : Batch μ} {g g' : Progress μ} {paths done : List Path} {p : Path}

/-- A source is seen as before. -/
theorem Separate.seesAlike {t : Store} (sep : b.Separate g.world.store paths)
    (hg : g.world.store.Grown (b.plan g.world.store paths) t) (hp : p ∈ paths) :
    g.world.store.SeesAlike t p := by
  rintro q (rfl | ⟨source, hs, m, hm, name, specifier, imported, himport, hq⟩)
  · exact (sep.sources q hp).readsAlike hg
  · exact (sep.imports p hp source hs m hm name specifier imported himport q hq).readsAlike hg

/-- A source is processed after others as if it were alone, and adds to the store what it adds
alone. -/
theorem process_after (sep : b.Separate g.world.store paths) (ht : b.tools = none)
    (h : b.After g paths done g'.world.store) (hp : p ∈ paths)
    (hdone : ∀ q ∈ done, b.Apart g.world.store q p) :
    (b.process g' p).2 = (b.process g p).2 ∧
      b.After g paths (p :: done) (b.process g' p).1.world.store := by
  have hsees := sep.seesAlike h.grown hp
  have hload := hsees.loadComponent_eq
  cases hs : Source.loadComponent g.world.store p with
  | error e =>
      rw [hs] at hload
      obtain ⟨_, ho⟩ := process_of_unreadable (b := b) hs
      obtain ⟨hw', ho'⟩ := process_of_unreadable (b := b) hload
      rw [ho, ho', hw']
      refine ⟨rfl, h.skip ?_⟩
      rintro ⟨source, hsource, _⟩
      rw [hs] at hsource
      cases hsource
  | ok source =>
      rw [hs] at hload
      have hcomponents : componentsIn g'.world.store source = componentsIn g.world.store source :=
        hsees.components_eq hs
      by_cases hnil : componentsIn g.world.store source = []
      · obtain ⟨_, ho⟩ := process_of_nil (b := b) hs hnil
        obtain ⟨hw', ho'⟩ := process_of_nil (b := b) hload (hcomponents.trans hnil)
        rw [ho, ho', hw']
        refine ⟨rfl, h.skip ?_⟩
        rintro ⟨source', hsource, hne⟩
        rw [hs] at hsource
        cases hsource
        exact hne hnil
      · have hhas : HasComponents g.world.store p := ⟨source, hs, hnil⟩
        obtain ⟨hw, ho⟩ := process_of_components (b := b) hs hnil
        obtain ⟨hw', ho'⟩ := process_of_components (b := b) hload (hcomponents ▸ hnil)
        rw [hcomponents] at hw' ho'
        obtain ⟨hstore, houtcome⟩ := place_of_none ht g.world p source
          (componentsIn g.world.store source)
        obtain ⟨hstore', houtcome'⟩ := place_of_none ht g'.world p source
          (componentsIn g.world.store source)
        have hsteady := sep.steady p hp hhas
        have hplan : ∀ x, Placement.Lands g.world.store (b.policy.targetPath p) x →
            (b.plan g.world.store paths).filled x := fun x hx => ⟨p, hp, hhas, hx⟩
        have hfile := h.untouched hhas hdone
        obtain ⟨hwrite, hfollows⟩ := hsteady.write_follows h.grown hplan hfile
          (b.suite p source (componentsIn g.world.store source) b.firstPass)
        rw [ho', ho, houtcome', houtcome, hsteady.check_eq h.grown hplan hfile, hwrite]
        refine ⟨rfl, h.place hhas hdone ?_⟩
        rw [hw', hw, hstore', hstore]
        exact hfollows

/-- Sources are processed one after the other as if each were alone. -/
theorem processAll_after (sep : b.Separate g.world.store paths) (ht : b.tools = none)
    {qs : List Path} (h : b.After g paths done g'.world.store) (hqs : ∀ q ∈ qs, q ∈ paths)
    (hpair : qs.Pairwise (b.Apart g.world.store))
    (hdone : ∀ d ∈ done, ∀ q ∈ qs, b.Apart g.world.store d q) :
    (b.processAll g' qs).2 = qs.map (fun p => ⟨p, (b.process g p).2⟩) ∧
      b.After g paths (qs.reverse ++ done) (b.processAll g' qs).1.world.store := by
  induction qs generalizing g' done with
  | nil => exact ⟨rfl, h⟩
  | cons p qs ih =>
      obtain ⟨hp, hqs⟩ := List.forall_mem_cons.mp hqs
      obtain ⟨hapart, hpair⟩ := List.pairwise_cons.mp hpair
      obtain ⟨ho, hafter⟩ := process_after sep ht h hp fun d hd => hdone d hd p List.mem_cons_self
      have hdone' : ∀ d ∈ p :: done, ∀ q ∈ qs, b.Apart g.world.store d q := by
        intro d hd q hq
        rcases List.mem_cons.mp hd with rfl | hd
        · exact hapart q hq
        · exact hdone d hd q (List.mem_cons_of_mem _ hq)
      obtain ⟨hreports, hall⟩ := ih hafter hqs hpair hdone'
      rw [processAll_cons]
      refine ⟨?_, ?_⟩
      · dsimp only
        rw [ho, hreports, List.map_cons]
      · rw [List.reverse_cons, List.append_assoc]
        exact hall

/-- A run over some of the sources. -/
theorem run_after (sep : b.Separate g.world.store paths) (ht : b.tools = none) {qs : List Path}
    (hqs : ∀ q ∈ qs, q ∈ paths) (hpair : qs.Pairwise (b.Apart g.world.store)) :
    (b.run g qs).2.files = qs.map (fun p => ⟨p, (b.process g p).2⟩) ∧
      b.After g paths qs (b.run g qs).1.world.store := by
  obtain ⟨hreports, hafter⟩ := processAll_after sep ht (.start b g paths) hqs hpair nofun
  refine ⟨hreports, hafter.of_mem fun p => ?_⟩
  rw [List.append_nil, List.mem_reverse]

end after

end Batch

end Trellis
