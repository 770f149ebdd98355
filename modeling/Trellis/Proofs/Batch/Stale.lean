import Trellis.Proofs.Batch.Isolation
import Trellis.Proofs.Batch.Turns
import Trellis.Proofs.Coverage.Stale

/-! # Runs and old summaries

Two runs that start in stores which differ at the coverage summary only.

* `Batch.KeepsOff` says that a turn keeps off a place: nothing that is looked at for the source leads
  to it, and the way of the target does not pass it.
* `Batch.process_related`: in worlds that are alike but for the summary, a source that keeps off the
  summary fares alike, and the worlds after it are again alike but for the summary.
* `Batch.run_unswayed`: runs that keep off the summary give the same report, whatever stood in its place,
  and leave stores that differ there at most. `summary_above_target` shows that a summary which stands
  in the way of a target does make a difference. -/

namespace Trellis.Batch

open Coverage

variable {μ : Type} {b : Batch μ} {g g' : Progress μ} {w w' : World μ} {p : Path} {paths : List Path}
  {f : SummaryFile} {x : Place}

/-- Whether the turn of a source keeps off a place: no path that is looked at for it leads to the
place, and if it has components, the way of its target does not pass it. -/
structure KeepsOff (b : Batch μ) (x : Place) (s : Store) (p : Path) : Prop where
  /-- What is read stands elsewhere. -/
  reads : ∀ q, s.LooksAt p q → ∀ l, s.locate true q = .ok l → ¬ l.Takes x
  /-- The target, with the directories that are made for it, lies elsewhere. -/
  target : HasComponents s p → Placement.Aside s (b.policy.targetPath p) x

/-- Whether two runs end with the same result, in worlds that are alike but for a summary. -/
structure EndRelated {α : Type} (f : SummaryFile) (x : Place) (r r' : World μ × α) : Prop where
  /-- The worlds are alike but for the summary. -/
  related : World.Related f x r.1 r'.1
  /-- The result is the same. -/
  result_eq : r'.2 = r.2

/-- A module that was written is measured alike. -/
theorem measured_related (ht : ∀ t ∈ b.tools, t.Clears f) (h : World.Related f x w w')
    (target : Path) (enriched : String) (outcome : Pass → Option Coverage.Report → Outcome) :
    EndRelated f x (b.measured w p target enriched outcome)
      (b.measured w' p target enriched outcome) := by
  cases htools : b.tools with
  | none =>
      rw [measured_of_none htools, measured_of_none htools]
      exact ⟨h, rfl⟩
  | some t =>
      cases hpass : b.firstPass with
      | enriched =>
          rw [measured_of_enriched hpass, measured_of_enriched hpass]
          exact ⟨h, rfl⟩
      | minimal =>
          have hloop := h.loop (ht t htools) p target enriched
          rw [measured_of_minimal htools hpass, measured_of_minimal htools hpass]
          exact ⟨.like hloop.like, by rw [hloop.result_eq]⟩

/-- The module of a source is placed alike, if the way of its target does not pass the summary. -/
theorem place_related (ht : ∀ t ∈ b.tools, t.Clears f) (h : World.Related f x w w')
    (source : Source) (components : List Component)
    (hx : Placement.Aside w.store (b.policy.targetPath p) x) :
    EndRelated f x (b.place w p source components) (b.place w' p source components) := by
  have hcheck := hx.check_eq h.same
  cases hc : Placement.check w.store (b.policy.targetPath p) with
  | error e =>
      rw [place_of_check_error hc, place_of_check_error (hcheck.trans hc)]
      exact ⟨h, rfl⟩
  | ok q =>
      cases hq : q.mayWrite with
      | false =>
          cases q <;> cases hq
          rw [place_of_keep hc, place_of_keep (hcheck.trans hc)]
          exact ⟨h, rfl⟩
      | true =>
          obtain ⟨hresult, hrelated⟩ := h.write hx (b.policy.text_targetPath_ne_empty p)
            (b.suite p source components b.firstPass)
          cases hw : w.write (b.policy.targetPath p) (b.suite p source components b.firstPass) with
          | mk w₁ r =>
              cases hw' : w'.write (b.policy.targetPath p)
                  (b.suite p source components b.firstPass) with
              | mk w₁' r' =>
                  rw [hw, hw'] at hresult hrelated
                  obtain rfl : r' = r := hresult
                  cases r' with
                  | error e =>
                      rw [place_of_unwritten hc hq hw, place_of_unwritten (hcheck.trans hc) hq hw']
                      exact ⟨hrelated, rfl⟩
                  | ok placement =>
                      rw [place_of_written hc hq hw, place_of_written (hcheck.trans hc) hq hw']
                      exact measured_related ht hrelated _ _ _

/-- A source that keeps off the summary fares alike, whatever summary there was. -/
theorem process_related (ht : ∀ t ∈ b.tools, t.Clears f)
    (h : World.Related f x g.world g'.world) (hx : b.KeepsOff x g.world.store p) :
    World.Related f x (b.process g p).1.world (b.process g' p).1.world ∧
      (b.process g' p).2 = (b.process g p).2 := by
  have hsees : g.world.store.SeesAlike g'.world.store p :=
    fun q hq => h.readsAlike (hx.reads q hq)
  cases hs : Source.loadComponent g.world.store p with
  | error e =>
      obtain ⟨hw, ho⟩ := process_of_unreadable (b := b) hs
      obtain ⟨hw', ho'⟩ := process_of_unreadable (b := b) (hsees.loadComponent_eq.trans hs)
      rw [hw, hw', ho, ho']
      exact ⟨h, rfl⟩
  | ok source =>
      have hs' := hsees.loadComponent_eq.trans hs
      have hcomponents : componentsIn g'.world.store source = componentsIn g.world.store source :=
        hsees.components_eq hs
      by_cases hnil : componentsIn g.world.store source = []
      · obtain ⟨hw, ho⟩ := process_of_nil (b := b) hs hnil
        obtain ⟨hw', ho'⟩ := process_of_nil (b := b) hs' (hcomponents.trans hnil)
        rw [hw, hw', ho, ho']
        exact ⟨h, rfl⟩
      · obtain ⟨hw, ho⟩ := process_of_components (b := b) hs hnil
        obtain ⟨hw', ho'⟩ := process_of_components (b := b) hs' (by rwa [hcomponents])
        rw [hw, hw', ho, ho', hcomponents]
        have hplace := place_related ht h source (componentsIn g.world.store source)
          (hx.target ⟨source, hs, hnil⟩)
        exact ⟨hplace.related, hplace.result_eq⟩

/-- Sources that keep off the summary fare alike, one after the other. -/
theorem run_related (ht : ∀ t ∈ b.tools, t.Clears f)
    (h : World.Related f x g.world g'.world) (hx : b.Always (b.KeepsOff x) g paths) :
    World.Related f x (b.run g paths).1.world (b.run g' paths).1.world ∧
      (b.run g' paths).2.files = (b.run g paths).2.files := by
  induction paths generalizing g g' with
  | nil => exact ⟨h, rfl⟩
  | cons p ps ih =>
      obtain ⟨hp, hps⟩ := always_cons_iff.mp hx
      obtain ⟨hrelated, houtcome⟩ := process_related ht h hp
      obtain ⟨hworld, hfiles⟩ := ih hrelated hps
      obtain ⟨hrun, hreport⟩ := run_cons b g p ps
      obtain ⟨hrun', hreport'⟩ := run_cons b g' p ps
      rw [hrun, hrun', hreport, hreport', houtcome, hfiles]
      exact ⟨hworld, rfl⟩

/-- Whether a run is not swayed by what stands at a summary. -/
structure Unswayed (b : Batch μ) (f : SummaryFile) (x : Place) (g : Progress μ)
    (paths : List Path) : Prop where
  /-- What becomes of a source does not depend on the summary that stood there when its turn came. -/
  outcome_eq : ∀ before p after, paths = before ++ p :: after → ∀ g' : Progress μ,
    World.Stale f x (b.run g before).1.world g'.world →
      (b.process g' p).2 = (b.process (b.run g before).1 p).2
  /-- Whatever summary stood there before, the report is the same. -/
  report_eq : ∀ g' : Progress μ, World.Stale f x g.world g'.world →
    (b.run g' paths).2 = (b.run g paths).2
  /-- The stores that are left differ there at most. -/
  same : ∀ g' : Progress μ, World.Stale f x g.world g'.world →
    (b.run g paths).1.world.store.SameBut x (b.run g' paths).1.world.store

/-- A run that keeps off the summary is not swayed by what stands there, whatever is run and however
the figure is read. -/
theorem run_unswayed (ht : ∀ t ∈ b.tools, t.Clears f) (hx : b.Always (b.KeepsOff x) g paths) :
    b.Unswayed f x g paths where
  outcome_eq _ p _ heq _ h :=
    (process_related ht (.stale h) (hx _ p _ heq)).2
  report_eq _ h := congrArg Report.mk (run_related ht (.stale h) hx).2
  same _ h := (run_related ht (.stale h) hx).1.same

/-! ### A run that keeps off the summary -/

theorem always_singleton {P : Store → Path → Prop} (h : P g.world.store p) :
    b.Always P g [p] := by
  refine always_cons_iff.mpr ⟨h, fun before q after heq => ?_⟩
  exact absurd heq (by simp)

/-- The run of a project whose tests and whose summary go where it says, if it says where. -/
def measuring (tests summary : Option String) : Batch Unit :=
  let coverage := { Config.Coverage.empty with command := ["true"], summaryPath := summary }
  ⟨⟨"/"⟩, ⟨.empty, { Config.Generation.empty with testDirectory := tests }, coverage⟩,
    some (Tools.ofConfig coverage ⟨"/"⟩), false⟩

/-- The summary of a project. -/
def summaryOf (b : Batch Unit) : SummaryFile := .ofConfig b.config.coverage b.root

theorem measuring_clears (tests summary : Option String) :
    ∀ t ∈ (measuring tests summary).tools, t.Clears (summaryOf (measuring tests summary)) := by
  intro t ht
  cases ht
  exact Tools.ofConfig_clears _ _

/-- A source for which only its own path is looked at keeps off places at which it does not stand. -/
theorem reads_of_reading {s : Store} {y : Place} {c : Content} {any : Bool}
    (h : reading s p = some (p, [], any)) (hl : s.locate true p = .ok (.at y (.file c)))
    (hy : y ≠ x) {q : Path} (hq : s.LooksAt p q) {l : Store.Located}
    (hl' : s.locate true q = .ok l) : ¬ l.Takes x := by
  obtain rfl := Store.eq_of_looksAt hq fun source hs => (specifiers_of_reading h hs).2
  rw [hl] at hl'
  cases hl'
  rintro ⟨⟩
  exact hy rfl

namespace Beside

/-- A source. -/
def start : Store := ⟨[(["A.tsx"], .file (.text "export const A=()=><p/>"))], []⟩

/-- The source, with a summary beside it. -/
def marked : Store := start.put ["cov"] (.file (.text "old"))

/-- The run; the summary is put beside the source. -/
def batch : Batch Unit := measuring none (some "cov")

/-- How the source is named. -/
def source : Path := ⟨"/A.tsx"⟩

/-- The state in which the run starts. -/
def progress : Progress Unit := ⟨⟨start, (), []⟩, .empty⟩

/-- The state with the summary. -/
def old : Progress Unit := ⟨⟨marked, (), []⟩, .empty⟩

/-- How the source is read, and where. -/
theorem readings : reading start source = some (source, [], true) ∧
    start.locate true source =
      .ok (.at ["A.tsx"] (.file (.text "export const A=()=><p/>"))) := by
  decide +kernel

/-- Where the summary stands. -/
theorem summaries : start.locate false (summaryOf batch).path = .ok (.free [] "cov") ∧
    marked.locate false (summaryOf batch).path = .ok (.at ["cov"] (.file (.text "old"))) := by
  decide +kernel

theorem stale : World.Stale (summaryOf batch) ["cov"] progress.world old.world :=
  ⟨Store.sameBut_put start _ _, ⟨_, summaries.1, .free _ _⟩, ⟨_, summaries.2, .file _ _⟩, rfl⟩

/-- The test goes beside the source as well. -/
theorem target_source :
    (Placement.room start (batch.policy.targetPath source)).entries = start.entries ∧
      Store.route (batch.policy.targetPath source) = ["A.test.tsx"] := by
  decide +kernel

theorem keepsOff : batch.KeepsOff ["cov"] start source where
  reads _ hq _ hl := reads_of_reading readings.1 readings.2 (by decide) hq hl
  target _ := by
    refine Placement.aside_of_name (x := []) ?_ ?_
    · rw [target_source.1]
      intro e he q
      obtain rfl := List.mem_singleton.mp he
      simp
    · rw [target_source.2]
      decide

end Beside

/-- A run over a source that has the summary beside it. -/
theorem run_unswayed_beside :
    (∀ t ∈ Beside.batch.tools, t.Clears (summaryOf Beside.batch)) ∧
      Beside.batch.Always (Beside.batch.KeepsOff ["cov"]) Beside.progress [Beside.source] ∧
      Beside.batch.Unswayed (summaryOf Beside.batch) ["cov"] Beside.progress [Beside.source] ∧
      World.Stale (summaryOf Beside.batch) ["cov"] Beside.progress.world Beside.old.world :=
  have ht := measuring_clears none (some "cov")
  have hx : Beside.batch.Always (Beside.batch.KeepsOff ["cov"]) Beside.progress [Beside.source] :=
    always_singleton Beside.keepsOff
  ⟨ht, hx, run_unswayed ht hx, Beside.stale⟩

/-! ### A summary above a target -/

/-- Whether no path that is looked at for a source leads to a place for a file, and its target does not
lead there, also with its directories made. -/
structure LeadsElsewhere (b : Batch μ) (x : Place) (s : Store) (p : Path) : Prop where
  /-- What is read stands elsewhere. -/
  reads : ∀ q, s.LooksAt p q → ∀ l, s.locate true q = .ok l → ¬ l.Takes x
  /-- The target stands elsewhere. -/
  target : ∀ l, s.locate true (b.policy.targetPath p) = .ok l → ¬ l.Takes x
  /-- With its directories made, the target stands elsewhere. -/
  room : ∀ l, (Placement.room s (b.policy.targetPath p)).locate true (b.policy.targetPath p) = .ok l →
    ¬ l.Takes x

namespace Above

/-- A source. -/
def start : Store :=
  ⟨[(["src"], .directory), (["src", "A.tsx"], .file (.text "export const A=()=><p/>"))], []⟩

/-- The source, with a summary where the directory of its test belongs. -/
def marked : Store := start.put ["src", "cov"] (.file (.text "old"))

/-- The run. -/
def batch : Batch Unit := measuring (some "cov") (some "src/cov")

/-- How the source is named. -/
def source : Path := ⟨"/src/A.tsx"⟩

/-- The state in which the run starts. -/
def progress : Progress Unit := ⟨⟨start, (), []⟩, .empty⟩

/-- The state with the summary. -/
def old : Progress Unit := ⟨⟨marked, (), []⟩, .empty⟩

/-- How the source is read, and where. -/
theorem readings : (reading start source = some (source, [], true) ∧
    start.locate true source =
      .ok (.at ["src", "A.tsx"] (.file (.text "export const A=()=><p/>")))) ∧
    reading marked source = some (source, [], true) ∧
    marked.locate true source =
      .ok (.at ["src", "A.tsx"] (.file (.text "export const A=()=><p/>"))) := by
  decide +kernel

/-- Where the summary stands. -/
theorem summaries : start.locate false (summaryOf batch).path = .ok (.free ["src"] "cov") ∧
    marked.locate false (summaryOf batch).path =
      .ok (.at ["src", "cov"] (.file (.text "old"))) := by
  decide +kernel

/-- Without the summary the test goes into a directory that is made for it. -/
theorem target_start : Placement.check start (batch.policy.targetPath source) = .ok .create ∧
    start.locate true (batch.policy.targetPath source) = .error .notFound ∧
    (Placement.makeRoom start (batch.policy.targetPath source)).2 = none ∧
    (Placement.room start (batch.policy.targetPath source)).locate true
      (batch.policy.targetPath source) = .ok (.free ["src", "cov"] "A.test.tsx") := by
  decide +kernel

/-- The summary is in the way of the directory. -/
theorem target_marked : Placement.check marked (batch.policy.targetPath source) =
      .error (.store (batch.policy.targetPath source) .notADirectory) ∧
    marked.locate true (batch.policy.targetPath source) = .error .notADirectory ∧
    (Placement.room marked (batch.policy.targetPath source)).locate true
      (batch.policy.targetPath source) = .error .notADirectory := by
  decide +kernel

theorem leadsElsewhere_start : batch.LeadsElsewhere ["src", "cov"] start source where
  reads _ hq _ hl := reads_of_reading readings.1.1 readings.1.2 (by decide) hq hl
  target l hl := by
    rw [target_start.2.1] at hl
    cases hl
  room l hl := by
    rw [target_start.2.2.2] at hl
    cases hl
    exact nofun

theorem leadsElsewhere_marked : batch.LeadsElsewhere ["src", "cov"] marked source where
  reads _ hq _ hl := reads_of_reading readings.2.1 readings.2.2 (by decide) hq hl
  target l hl := by
    rw [target_marked.2.1] at hl
    cases hl
  room l hl := by
    rw [target_marked.2.2] at hl
    cases hl

theorem stale : World.Stale (summaryOf batch) ["src", "cov"] progress.world old.world :=
  ⟨Store.sameBut_put start _ _, ⟨_, summaries.1, .free _ _⟩, ⟨_, summaries.2, .file _ _⟩, rfl⟩

/-- Without the summary the module is written and measured. -/
theorem process_start : ∃ components pass feedback, (batch.process progress source).2 =
    batch.placed source components pass .create feedback := by
  obtain ⟨s, hs, hne⟩ := hasComponents_of_reading readings.1.1
  have hm := batch.carriesMarker_suite source s (componentsIn progress.world.store s)
  have hw : progress.world.write (batch.policy.targetPath source)
      (batch.suite source s _ batch.firstPass) = _ :=
    World.write_of_locate (hm batch.firstPass) target_start.1 rfl target_start.2.2.1
      target_start.2.2.2 (.free _ _) () []
  have hprocess := process_of_written (b := batch) (g := progress) hs hne target_start.1 rfl hw
  rw [measured_of_minimal (b := batch) rfl rfl] at hprocess
  exact ⟨_, _, _, (Prod.mk.inj hprocess).2⟩

/-- With the summary there is no room for the test. -/
theorem process_old : (batch.process old source).2 =
    .unwritable (batch.policy.targetPath source) WriteFault.code
      (WriteFault.store (batch.policy.targetPath source) .notADirectory).message := by
  obtain ⟨s, hs, hne⟩ := hasComponents_of_reading readings.2.1
  rw [(process_of_components (b := batch) (g := old) hs hne).2]
  have hc : Placement.check old.world.store (batch.policy.targetPath source) = _ := target_marked.1
  rw [place_of_check_error hc]

/-- What is reported depends on the summary. -/
theorem report_ne : (batch.run old [source]).2 ≠ (batch.run progress [source]).2 := by
  intro h
  have hfiles := congrArg Report.files h
  rw [(run_cons batch old source []).2, (run_cons batch progress source []).2] at hfiles
  have houtcome := (FileReport.mk.inj (List.cons.inj hfiles).1).2
  obtain ⟨_, _, _, hstart⟩ := process_start
  rw [hstart, process_old] at houtcome
  cases houtcome

end Above

/-- It is not enough that no source, imported module or target leads to the summary: it may stand in
the way of a target. -/
theorem summary_above_target :
    (∀ t ∈ Above.batch.tools, t.Clears (summaryOf Above.batch)) ∧
      World.Stale (summaryOf Above.batch) ["src", "cov"] Above.progress.world Above.old.world ∧
      Above.batch.Always (Above.batch.LeadsElsewhere ["src", "cov"]) Above.progress
        [Above.source] ∧
      Above.batch.Always (Above.batch.LeadsElsewhere ["src", "cov"]) Above.old [Above.source] ∧
      (Above.batch.run Above.old [Above.source]).2 ≠
        (Above.batch.run Above.progress [Above.source]).2 :=
  ⟨measuring_clears (some "cov") (some "src/cov"), Above.stale,
    always_singleton Above.leadsElsewhere_start, always_singleton Above.leadsElsewhere_marked,
    Above.report_ne⟩

end Trellis.Batch
