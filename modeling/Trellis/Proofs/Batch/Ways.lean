import Trellis.Batch.Run
import Trellis.Proofs.Coverage.LoopStates
import Trellis.Proofs.Placement.Write

/-! # The ways of a run

What a run does with its sources, step by step.

* `ParseCache.loadComponent_eq`: the cache changes nothing of what is read.
* `Tools.Uses` says that tools reset and read a given summary, and may run anything.
* `Batch.Way` lists what may become of a source with components, each way with its events and its
  outcome; `Batch.place_way` says that there are no others.
* `Batch.process_cases` goes back from a source to its components, and `Batch.run_trace` puts the
  steps of all sources together. -/

namespace Trellis

/-! ### Reading through the cache -/

namespace ParseCache

theorem parse_eq (c : ParseCache) (d : Dialect) (text : String) :
    (c.parse d text).2 = Syntax.parse? d text := by
  unfold parse
  split
  · rename_i e he
    have hfound := List.find?_some he
    rw [Bool.and_eq_true, decide_eq_true_eq, decide_eq_true_eq] at hfound
    rw [e.tree_eq, hfound.1, hfound.2]
  · rfl

theorem ofText_eq (c : ParseCache) (p : Path) (d : Dialect) (text : String) :
    (c.ofText p d text).2 = Source.parse p d text := by
  have h := parse_eq c d text
  unfold ofText Source.parse
  split
  · rename_i c' tree hp
    rw [hp] at h
    rw [← h]
  · rename_i c' hp
    rw [hp] at h
    rw [← h]

/-- What is read through the cache is what is read without it. -/
theorem loadComponent_eq (c : ParseCache) (s : Store) (p : Path) :
    (c.loadComponent s p).2 = Source.loadComponent s p := by
  unfold loadComponent loadAs Source.loadComponent
  cases Source.componentDialectOf p with
  | error e => rfl
  | ok d =>
      dsimp only
      cases ht : Source.textAt s p d with
      | error e =>
          simp [bind, Except.bind, ht]
      | ok t =>
          simp [bind, Except.bind, ht, ofText_eq]

end ParseCache

variable {μ : Type}

/-! ### Tools -/

/-- Whether tools reset and read a summary; they may run anything. -/
structure Coverage.Tools.Uses (t : Tools μ) (f : SummaryFile) : Prop where
  /-- A reset takes the summary away. -/
  reset_eq : ∀ s m, (t.reset s m).1 = (f.reset s).1
  /-- A reading changes nothing. -/
  measure_eq : ∀ source s m, (t.measure source s m).1 = s

theorem Coverage.Tools.ofConfig_uses (c : Config.Coverage) (root : Path) :
    (Tools.ofConfig c root).Uses (.ofConfig c root) :=
  ⟨fun _ _ => rfl, fun _ _ _ => rfl⟩

/-! ### Worlds -/

/-- A tool changes the store of a world. -/
theorem Coverage.World.store_of_act {w w' : World μ} {ε α : Type} {a : Act}
    {f : Store → μ → Store × μ × Except ε α} {r : Except ε α} (h : w.act a f = (w', r)) :
    w'.store = (f w.store w.memory).1 := by
  obtain ⟨rfl, rfl⟩ := Prod.mk.inj h
  rfl

/-- A write in a world is one in its store. -/
theorem Coverage.World.store_of_write {w w' : World μ} {target : Path} {text : String}
    {r : Except WriteFault Placement} (h : w.write target text = (w', r)) :
    Placement.write w.store target text = (w'.store, r) := by
  unfold World.write at h
  split at h
  · rename_i s p hw
    cases h
    exact hw
  · rename_i s e hw
    cases h
    exact hw

/-- A text with the marker is written where the target may be written and there is room. -/
theorem Coverage.World.write_of_locate {s : Store} {target : Path} {text : String} {q : Placement}
    {l : Store.Located} {place : Place} (hm : Placement.carriesMarker text = true)
    (hc : Placement.check s target = .ok q) (hq : q.mayWrite = true)
    (hroom : (Placement.makeRoom s target).2 = none)
    (hl : (Placement.room s target).locate true target = .ok l) (htakes : l.Takes place) (m : μ)
    (acts : List Act) :
    World.write ⟨s, m, acts⟩ target text =
      (⟨(Placement.room s target).put place (.file (.text text)), m,
        acts ++ [.wrote target text s]⟩, .ok q) := by
  have hw := Placement.write_of_permit (Placement.permit_ok_iff.mpr ⟨hm, hc, hq⟩) hroom
    (Store.write_of_locate hl htakes (.text text))
  unfold World.write
  rw [hw]

namespace Batch

open Coverage

/-! ### One source with components -/

section place
variable (b : Batch μ) (p : Path) (source : Source) (components : List Component)

/-- The outcome for a module that was written. -/
def placed (pass : Pass) (placement : Placement) (feedback : Option Coverage.Report) : Outcome :=
  .generated (b.policy.targetPath p) (components.map (·.name)) pass placement feedback

/-- What may become of a source with components: the events, and the outcome. -/
inductive Way : List Event → Outcome → Prop
  | unchecked {q : Path} {cause : FileFault} :
      Way [] (.unwritable (b.policy.targetPath p) WriteFault.code (WriteFault.store q cause).message)
  | manual : Way [] (.manualTest (b.policy.targetPath p))
  | unwritten {q : Path} {cause : FileFault} :
      Way [.wrote (b.policy.targetPath p) (b.suite p source components b.firstPass)
        (.error (.store q cause))]
        (.unwritable (b.policy.targetPath p) WriteFault.code (WriteFault.store q cause).message)
  | written {placement : Placement} :
      b.tools = none ∨ b.firstPass = .enriched →
      Way [.wrote (b.policy.targetPath p) (b.suite p source components b.firstPass) (.ok placement)]
        (b.placed p components b.firstPass placement none)
  | measured {t : Tools μ} {placement : Placement} {report : Coverage.Report} {es : List Event} :
      b.tools = some t → b.firstPass = .minimal →
      History t p (b.policy.targetPath p) (b.suite p source components .enriched) report es →
      Way (.wrote (b.policy.targetPath p) (b.suite p source components b.firstPass) (.ok placement)
          :: es)
        (b.placed p components (if report.state = .refined then .enriched else .minimal) placement
          (some report))

/-- The module of a source carries the marker. -/
theorem carriesMarker_suite (pass : Pass) :
    Placement.carriesMarker (b.suite p source components pass) = true :=
  Placement.carriesMarker_text _ _ _ _

theorem measured_of_none {b : Batch μ} (ht : b.tools = none) (w : World μ) (p target : Path)
    (enriched : String) (outcome : Pass → Option Coverage.Report → Outcome) :
    b.measured w p target enriched outcome = (w, outcome b.firstPass none) := by
  rw [measured, ht]

theorem measured_of_enriched {b : Batch μ} (hp : b.firstPass = .enriched) (w : World μ)
    (p target : Path) (enriched : String) (outcome : Pass → Option Coverage.Report → Outcome) :
    b.measured w p target enriched outcome = (w, outcome b.firstPass none) := by
  rw [measured, hp]
  cases b.tools <;> rfl

theorem measured_of_minimal {b : Batch μ} {t : Tools μ} (ht : b.tools = some t)
    (hp : b.firstPass = .minimal) (w : World μ) (p target : Path) (enriched : String)
    (outcome : Pass → Option Coverage.Report → Outcome) :
    b.measured w p target enriched outcome =
      ((t.loop p target enriched w).1,
        outcome (if (t.loop p target enriched w).2.state = .refined then .enriched else .minimal)
          (some (t.loop p target enriched w).2)) := by
  rw [measured, ht, hp]

/-- A module that was written is measured if there are tools and the pass is the minimal one. -/
theorem measured_way {w w₁ : World μ} {placement : Placement}
    (hw : w.write (b.policy.targetPath p) (b.suite p source components b.firstPass) =
      (w₁, .ok placement)) :
    ∃ steps,
      Trace b.tools w steps (b.measured w₁ p (b.policy.targetPath p)
        (b.suite p source components .enriched) fun pass feedback =>
          b.placed p components pass placement feedback).1 ∧
      b.Way p source components (steps.map Step.event) (b.measured w₁ p (b.policy.targetPath p)
        (b.suite p source components .enriched) fun pass feedback =>
          b.placed p components pass placement feedback).2 := by
  have h₁ : Step.Valid b.tools ⟨w, .wrote (b.policy.targetPath p)
      (b.suite p source components b.firstPass) (.ok placement), w₁⟩ := hw
  have tr₁ := Trace.single h₁
  cases hpass : b.firstPass with
  | enriched =>
      rw [measured_of_enriched hpass]
      exact ⟨_, tr₁, .written (.inr hpass)⟩
  | minimal =>
      cases ht : b.tools with
      | none =>
          rw [measured_of_none ht]
          rw [ht] at tr₁
          exact ⟨_, tr₁, .written (.inl ht)⟩
      | some t =>
          rw [measured_of_minimal ht hpass]
          rw [ht] at tr₁
          obtain ⟨steps, tr, hist⟩ := loop_history t p (b.policy.targetPath p)
            (b.suite p source components .enriched) w₁
          have tr₂ := tr₁.append tr
          exact ⟨_, tr₂, .measured ht hpass hist⟩

section checked
variable {b : Batch μ} {p : Path} {source : Source} {components : List Component} {w : World μ}

theorem place_of_check_error {e : WriteFault}
    (hc : Placement.check w.store (b.policy.targetPath p) = .error e) :
    b.place w p source components =
      (w, .unwritable (b.policy.targetPath p) WriteFault.code e.message) := by
  unfold place
  dsimp only
  rw [hc]

theorem place_of_keep (hc : Placement.check w.store (b.policy.targetPath p) = .ok .keep) :
    b.place w p source components = (w, .manualTest (b.policy.targetPath p)) := by
  unfold place
  dsimp only
  rw [hc]

theorem place_of_unwritten {w₁ : World μ} {q : Placement} {e : WriteFault}
    (hc : Placement.check w.store (b.policy.targetPath p) = .ok q) (hq : q.mayWrite = true)
    (hw : w.write (b.policy.targetPath p) (b.suite p source components b.firstPass) =
      (w₁, .error e)) :
    b.place w p source components = (w₁, unwritten (b.policy.targetPath p) e) := by
  unfold place
  dsimp only
  rw [hc]
  cases q with
  | keep => cases hq
  | create =>
      dsimp only
      rw [hw]
  | regenerate =>
      dsimp only
      rw [hw]

theorem place_of_written {w₁ : World μ} {q placement : Placement}
    (hc : Placement.check w.store (b.policy.targetPath p) = .ok q) (hq : q.mayWrite = true)
    (hw : w.write (b.policy.targetPath p) (b.suite p source components b.firstPass) =
      (w₁, .ok placement)) :
    b.place w p source components =
      b.measured w₁ p (b.policy.targetPath p) (b.suite p source components .enriched)
        fun pass feedback => b.placed p components pass placement feedback := by
  unfold place
  dsimp only
  rw [hc]
  cases q with
  | keep => cases hq
  | create =>
      dsimp only
      rw [hw]
      rfl
  | regenerate =>
      dsimp only
      rw [hw]
      rfl

end checked

/-- A source with components goes one of the ways. -/
theorem place_way (w : World μ) :
    ∃ steps, Trace b.tools w steps (b.place w p source components).1 ∧
      b.Way p source components (steps.map Step.event) (b.place w p source components).2 := by
  cases hc : Placement.check w.store (b.policy.targetPath p) with
  | error e =>
      obtain ⟨cause, rfl⟩ := Placement.check_error hc
      rw [place_of_check_error hc]
      exact ⟨[], .nil w, .unchecked⟩
  | ok q =>
      cases hq : q.mayWrite with
      | false =>
          have hkeep : q = .keep := by cases q <;> first | rfl | cases hq
          subst hkeep
          rw [place_of_keep hc]
          exact ⟨[], .nil w, .manual⟩
      | true =>
          cases hw : w.write (b.policy.targetPath p) (b.suite p source components b.firstPass) with
          | mk w₁ r =>
              cases r with
              | ok placement =>
                  rw [place_of_written hc hq hw]
                  exact b.measured_way p source components hw
              | error e =>
                  rw [place_of_unwritten hc hq hw]
                  have h₁ : Step.Valid b.tools ⟨w, .wrote (b.policy.targetPath p)
                      (b.suite p source components b.firstPass) (.error e), w₁⟩ := hw
                  have tr₁ := Trace.single h₁
                  have hpermit := Placement.permit_ok_iff.mpr
                    ⟨b.carriesMarker_suite p source components b.firstPass, hc, hq⟩
                  rcases Placement.write_error (World.store_of_write hw) with
                    ⟨hno, _⟩ | ⟨_, _, _, _, rfl⟩
                  · rw [hpermit] at hno
                    cases hno
                  · exact ⟨_, tr₁, .unwritten⟩

end place

/-! ### Any source -/

theorem read_world (g : Progress μ) (p : Path) : (read g p).1.world = g.world := by
  unfold read
  cases g.parsed.loadComponent g.world.store p
  rfl

theorem read_eq (g : Progress μ) (p : Path) :
    (read g p).2 = Source.loadComponent g.world.store p :=
  ParseCache.loadComponent_eq g.parsed g.world.store p

/-- The components of a source in a store. -/
def componentsIn (s : Store) (source : Source) : List Component :=
  Analysis.components s.modules source

theorem exists_components {s : Store} {p : Path}
    (h : (Source.loadComponent s p).toOption.any (fun x => componentsIn s x ≠ []) = true) :
    ∃ x, Source.loadComponent s p = .ok x ∧ componentsIn s x ≠ [] := by
  cases hl : Source.loadComponent s p with
  | error e =>
      rw [hl] at h
      cases h
  | ok x =>
      rw [hl] at h
      exact ⟨x, rfl, of_decide_eq_true h⟩

/-- A source cannot be read, or has no components, or its module is placed. -/
theorem process_cases (b : Batch μ) (g : Progress μ) (p : Path) :
    (∃ e, Source.loadComponent g.world.store p = .error e ∧
      (b.process g p).1.world = g.world ∧
      (b.process g p).2 = .unreadable LoadFault.code e.message) ∨
    ∃ source, Source.loadComponent g.world.store p = .ok source ∧
      ((componentsIn g.world.store source = [] ∧ (b.process g p).1.world = g.world ∧
        (b.process g p).2 = .noComponents) ∨
      (b.process g p).1.world =
          (b.place g.world p source (componentsIn g.world.store source)).1 ∧
        (b.process g p).2 =
          (b.place g.world p source (componentsIn g.world.store source)).2) := by
  have hworld := read_world g p
  have hread := read_eq g p
  unfold process
  cases hg : read g p with
  | mk g₁ r =>
      rw [hg] at hworld hread
      dsimp only at hworld hread
      rw [← hread]
      cases r with
      | error e => exact .inl ⟨e, rfl, hworld, rfl⟩
      | ok source =>
          refine .inr ⟨source, rfl, ?_⟩
          rw [← hworld]
          dsimp only [analyze]
          unfold componentsIn
          cases hc : Analysis.components g₁.world.store.modules source with
          | nil => exact .inl ⟨rfl, rfl, rfl⟩
          | cons c cs =>
              dsimp only
              exact .inr ⟨rfl, rfl⟩

/-- What becomes of a source whose module is written. -/
theorem process_of_written {b : Batch μ} {g : Progress μ} {p : Path} {source : Source}
    {w : World μ} {q placement : Placement}
    (hs : Source.loadComponent g.world.store p = .ok source)
    (hne : componentsIn g.world.store source ≠ [])
    (hc : Placement.check g.world.store (b.policy.targetPath p) = .ok q) (hq : q.mayWrite = true)
    (hw : g.world.write (b.policy.targetPath p)
      (b.suite p source (componentsIn g.world.store source) b.firstPass) = (w, .ok placement)) :
    ((b.process g p).1.world, (b.process g p).2) =
      b.measured w p (b.policy.targetPath p)
        (b.suite p source (componentsIn g.world.store source) .enriched) fun pass feedback =>
          b.placed p (componentsIn g.world.store source) pass placement feedback := by
  rcases b.process_cases g p with ⟨e, he, _⟩ | ⟨s, hs', ⟨hnil, _⟩ | ⟨hworld, ho⟩⟩
  · rw [hs] at he
    cases he
  · rw [hs] at hs'
    cases hs'
    exact absurd hnil hne
  · rw [hs] at hs'
    cases hs'
    rw [hworld, ho, place_of_written hc hq hw]

theorem process_trace (b : Batch μ) (g : Progress μ) (p : Path) :
    ∃ steps, Trace b.tools g.world steps (b.process g p).1.world := by
  rcases b.process_cases g p with ⟨_, _, hw, _⟩ | ⟨source, _, ⟨_, hw, _⟩ | ⟨hw, _⟩⟩
  · exact ⟨[], hw ▸ .nil _⟩
  · exact ⟨[], hw ▸ .nil _⟩
  · obtain ⟨steps, tr, _⟩ := b.place_way p source (componentsIn g.world.store source) g.world
    rw [hw]
    exact ⟨steps, tr⟩

/-- A source whose test is written by hand costs nothing: nothing is run and nothing is written. -/
theorem world_of_manualTest {b : Batch μ} {g : Progress μ} {p target : Path}
    (h : (b.process g p).2 = .manualTest target) : (b.process g p).1.world = g.world := by
  rcases b.process_cases g p with ⟨_, _, hw, _⟩ | ⟨source, _, ⟨_, hw, _⟩ | ⟨hw, ho⟩⟩
  · exact hw
  · exact hw
  · obtain ⟨steps, tr, way⟩ := b.place_way p source (componentsIn g.world.store source) g.world
    rw [← ho, h] at way
    generalize hes : steps.map Step.event = es at way
    cases way with
    | manual =>
        rw [List.map_eq_nil_iff] at hes
        subst hes
        rw [hw]
        exact tr.symm

/-! ### Many sources -/

theorem processAll_cons (b : Batch μ) (g : Progress μ) (p : Path) (ps : List Path) :
    b.processAll g (p :: ps) =
      ((b.processAll (b.process g p).1 ps).1,
        ⟨p, (b.process g p).2⟩ :: (b.processAll (b.process g p).1 ps).2) := by
  rw [processAll]

theorem run_singleton (b : Batch μ) (g : Progress μ) (p : Path) :
    (b.run g [p]).1 = (b.process g p).1 := by
  unfold run
  rw [processAll_cons, processAll]

theorem run_files_singleton (b : Batch μ) (g : Progress μ) (p : Path) :
    (b.run g [p]).2.files = [⟨p, (b.process g p).2⟩] := by
  unfold run
  rw [processAll_cons, processAll]

/-- The steps of a run. -/
theorem run_trace (b : Batch μ) (g : Progress μ) (paths : List Path) :
    ∃ steps, Trace b.tools g.world steps (b.run g paths).1.world := by
  induction paths generalizing g with
  | nil => exact ⟨[], .nil _⟩
  | cons p ps ih =>
      obtain ⟨steps, tr⟩ := b.process_trace g p
      obtain ⟨more, tr'⟩ := ih (b.process g p).1
      exact ⟨steps ++ more, tr.append tr'⟩

/-- The report at an index is that of the source at the index, in the state that the sources before
it left. -/
theorem run_files_getElem? (b : Batch μ) (g : Progress μ) (paths : List Path) (i : Nat) :
    (b.run g paths).2.files[i]? =
      paths[i]?.map fun p => ⟨p, (b.process (b.run g (paths.take i)).1 p).2⟩ := by
  induction paths generalizing g i with
  | nil => rfl
  | cons p ps ih =>
      cases i with
      | zero => rfl
      | succ i => exact ih (b.process g p).1 i

theorem run_take_succ (b : Batch μ) (g : Progress μ) {paths : List Path} {i : Nat} {p : Path}
    (h : paths[i]? = some p) :
    (b.run g (paths.take (i + 1))).1 = (b.process (b.run g (paths.take i)).1 p).1 := by
  induction paths generalizing g i with
  | nil => cases h
  | cons q ps ih =>
      cases i with
      | zero =>
          cases h
          rfl
      | succ i => exact ih (b.process g q).1 h

end Batch

end Trellis
