import Trellis.Proofs.Batch.Rerun

/-! # Runs that do not repeat

Runs over sources that are no targets, in which no write fails, and which do not come to the same when
they are run again.

* In `Detour` a source cannot be read until a later one has had its directory made.
* In `Uncovered` a test written by hand is found for one source, and another one writes over it,
  because its target leads there only once its directories are made. -/

namespace Trellis

variable {μ : Type}

namespace Batch

open Coverage

/-! ### Runs over two sources -/

section pair
variable {b : Batch μ} {g : Progress μ} {p q : Path} {s : Store} {x : Place}

/-- What becomes of the first of two sources in a run that repeats. -/
theorem Repeats.head (h : b.Repeats g [p, q]) :
    (b.process (b.process (b.process g p).1 q).1 p).2 = (b.process g p).2.regenerated := by
  have hrun : (b.run g [p, q]).1 = (b.process (b.process g p).1 q).1 := by
    rw [(run_cons b g p [q]).1, run_singleton]
  obtain ⟨hfiles, _⟩ := h (b.run g [p, q]).1 rfl
  rw [(run_cons b (b.run g [p, q]).1 p [q]).2, (run_cons b g p [q]).2, List.map_cons,
    List.cons.injEq, hrun] at hfiles
  exact (FileReport.mk.inj hfiles.1).2

/-- What has to be shown of each of two sources for a run over both. -/
theorem untargeted_pair : b.Untargeted g [p, q] ↔
    (∀ r, g.world.store.LooksAt p r → Avoids (b.Fills g [p, q]) g.world.store r) ∧
      ∀ r, (b.process g p).1.world.store.LooksAt q r →
        Avoids (b.Fills g [p, q]) (b.process g p).1.world.store r := by
  unfold Untargeted
  rw [always_cons_iff, always_cons_iff]
  refine and_congr_right fun _ => ⟨fun h => h.1, fun h => ⟨h, fun before r after heq => ?_⟩⟩
  exact absurd heq (by simp)

theorem fills_pair : b.Fills g [p, q] x ↔
    b.LandsAt g.world.store p x ∨ b.LandsAt (b.process g p).1.world.store q x := by
  rw [fills_cons_iff, fills_cons_iff]
  refine or_congr_right ⟨fun h => h.resolve_right ?_, .inl⟩
  rintro ⟨before, r, after, heq, _⟩
  exact absurd heq (by simp)

theorem writesAll_pair : b.WritesAll g [p, q] ↔
    (b.process g p).2.IsWritten ∧ (b.process (b.process g p).1 q).2.IsWritten := by
  rw [writesAll_cons_iff, writesAll_cons_iff]
  exact and_congr_right fun _ => ⟨fun h => h.1, fun h => ⟨h, writesAll_nil⟩⟩

/-- What becomes of a source with components in a given store. -/
theorem process_of_store (ht : b.tools = none) (hg : g.world.store = s) (hhas : HasComponents s p)
    (hx : Placement.Lands s (b.policy.targetPath p) x) {placement : Placement}
    (hc : Placement.check s (b.policy.targetPath p) = .ok placement)
    (hq : placement.mayWrite = true) :
    (∃ text, Placement.carriesMarker text = true ∧ (b.process g p).1.world.store =
        (Placement.room s (b.policy.targetPath p)).put x (.file (.text text))) ∧
      ∃ components, (b.process g p).2 = b.placed p components b.firstPass placement none := by
  subst hg
  obtain ⟨source, hs, hne⟩ := hhas
  obtain ⟨hw, ho⟩ := process_of_lands ht hs hne hx hc hq
  exact ⟨⟨_, b.carriesMarker_suite p source _ b.firstPass, hw⟩, _, ho⟩

end pair

namespace Detour

/-- The second source cannot be read and changes nothing. -/
theorem process_second : (batch.process progress second).1.world.store = start ∧
    ∃ e : LoadFault, (batch.process progress second).2 = .unreadable LoadFault.code e.message := by
  obtain ⟨e, he⟩ := error_of_reading readings.2.1
  obtain ⟨hw, ho⟩ := process_of_unreadable (b := batch) (g := progress) he
  refine ⟨?_, e, ho⟩
  rw [hw]
  unfold progress
  rfl

/-- What becomes of the first source after it. -/
theorem process_first :
    (∃ text, Placement.carriesMarker text = true ∧
      (batch.process (batch.process progress second).1 first).1.world.store =
        (Placement.room start (batch.policy.targetPath first)).put ["__tests__", "A.test.tsx"]
          (.file (.text text))) ∧
      ∃ components, (batch.process (batch.process progress second).1 first).2 =
        batch.placed first components batch.firstPass .create none :=
  process_of_store rfl process_second.1 (hasComponents_of_reading readings.1) lands_first
    target_first.1 rfl

theorem writesAll : batch.WritesAll progress [second, first] := by
  refine writesAll_pair.mpr ⟨?_, ?_⟩
  · obtain ⟨_, e, ho⟩ := process_second
    rw [ho]
    exact isWritten_unreadable
  · obtain ⟨_, components, ho⟩ := process_first
    rw [ho]
    exact isWritten_placed

theorem eq_of_fills {x : Place} (h : batch.Fills progress [second, first] x) :
    x = ["__tests__", "A.test.tsx"] := by
  rcases fills_pair.mp h with h | h
  · exact absurd h.1 (not_hasComponents_of_reading readings.2.1)
  · rw [process_second.1] at h
    exact h.2.unique lands_first

theorem untargeted : batch.Untargeted progress [second, first] := by
  refine untargeted_pair.mpr ⟨fun r hr x c hl => ?_, fun r hr x c hl hx => ?_⟩
  · obtain ⟨e, he⟩ := error_of_reading readings.2.1
    obtain rfl := Store.eq_of_looksAt hr fun source hs => absurd (hs.symm.trans he) (by simp)
    exact absurd (hl.symm.trans readings.2.2.2) (by simp)
  · rw [process_second.1] at hr hl
    obtain rfl := Store.eq_of_looksAt hr fun source hs => (specifiers_of_reading readings.1 hs).2
    have hplace := readings.2.2.1.symm.trans hl
    rw [eq_of_fills hx] at hplace
    simp at hplace

/-- The second time the source that could not be read is found. -/
theorem not_repeats : ¬ batch.Repeats progress [second, first] := by
  intro h
  obtain ⟨_, e, ho⟩ := process_second
  have hagain := h.head
  rw [ho] at hagain
  obtain ⟨e', he'⟩ := load_of_unreadable (b := batch) rfl hagain
  obtain ⟨⟨text, _, hstore⟩, _⟩ := process_first
  obtain ⟨source, hs⟩ := load_of_put text
  rw [hstore, hs] at he'
  cases he'

end Detour

namespace Uncovered

/-- Two sources and a test written by hand to which the targets of both lead. There is a directory on
the way to the first target, and none yet on the way to the second. -/
def start : Store :=
  ⟨[(["a"], .directory), (["a", "A.tsx"], .file (.text "export const A=()=><p/>")),
    (["a", "x"], .directory),
    (["b"], .directory), (["b", "A.tsx"], .file (.text "export const A=()=><p/>")),
    (["t"], .directory), (["t", "A.test.tsx"], .file (.text ""))], []⟩

/-- The run. -/
def batch : Batch Unit :=
  ⟨⟨"/"⟩, ⟨.empty, { Config.Generation.empty with testDirectory := some "x/../../t" }, .empty⟩,
    none, false⟩

/-- The first source. -/
def first : Path := ⟨"/a/A.tsx"⟩

/-- The second source. -/
def second : Path := ⟨"/b/A.tsx"⟩

/-- Where the test written by hand stands. -/
def hidden : Place := ["t", "A.test.tsx"]

/-- The state in which the run starts. -/
def progress : Progress Unit := ⟨⟨start, (), []⟩, .empty⟩

/-- The store with the directories of the second target. -/
def cleared : Store := Placement.room start (batch.policy.targetPath second)

/-- How the sources are read, and where. -/
theorem readings : reading start first = some (first, [], true) ∧
    reading start second = some (second, [], true) ∧
    reading cleared first = some (first, [], true) ∧
    start.locate true first = .ok (.at ["a", "A.tsx"] (.file (.text "export const A=()=><p/>"))) ∧
    start.locate true second =
      .ok (.at ["b", "A.tsx"] (.file (.text "export const A=()=><p/>"))) ∧
    cleared.locate true first =
      .ok (.at ["a", "A.tsx"] (.file (.text "export const A=()=><p/>"))) := by
  decide +kernel

/-- What stands at the targets. -/
theorem targets : Placement.check start (batch.policy.targetPath first) = .ok .keep ∧
    Placement.check start (batch.policy.targetPath second) = .ok .create ∧
    (Placement.makeRoom start (batch.policy.targetPath second)).2 = none ∧
    start.locate true (batch.policy.targetPath first) = .ok (.at hidden (.file (.text ""))) ∧
    cleared.locate true (batch.policy.targetPath first) = .ok (.at hidden (.file (.text ""))) ∧
    cleared.locate true (batch.policy.targetPath second) =
      .ok (.at hidden (.file (.text ""))) := by
  decide +kernel

theorem lands_second : Placement.Lands start (batch.policy.targetPath second) hidden :=
  ⟨targets.2.2.1, _, targets.2.2.2.2.2, .file _ _⟩

/-- The test written by hand is found for the first source. -/
theorem process_first : (batch.process progress first).1.world.store = start ∧
    (batch.process progress first).2 = .manualTest (batch.policy.targetPath first) := by
  obtain ⟨source, hs, hne⟩ := hasComponents_of_reading readings.1
  obtain ⟨hw, ho⟩ := process_of_components (b := batch) (g := progress) hs hne
  have hplace (components : List Component) : batch.place progress.world first source components =
      (progress.world, .manualTest (batch.policy.targetPath first)) := place_of_keep targets.1
  rw [hw, ho, hplace]
  unfold progress
  exact ⟨rfl, rfl⟩

/-- The second source writes over it. -/
theorem process_second :
    (∃ text, Placement.carriesMarker text = true ∧
      (batch.process (batch.process progress first).1 second).1.world.store =
        cleared.put hidden (.file (.text text))) ∧
      ∃ components, (batch.process (batch.process progress first).1 second).2 =
        batch.placed second components batch.firstPass .create none :=
  process_of_store rfl process_first.1 (hasComponents_of_reading readings.2.1) lands_second
    targets.2.1 rfl

theorem writesAll : batch.WritesAll progress [first, second] := by
  refine writesAll_pair.mpr ⟨?_, ?_⟩
  · rw [process_first.2]
    exact nofun
  · obtain ⟨_, components, ho⟩ := process_second
    rw [ho]
    exact isWritten_placed

theorem eq_of_fills {x : Place} (h : batch.Fills progress [first, second] x) : x = hidden := by
  rcases fills_pair.mp h with h | h
  · exact h.2.unique (Placement.lands_of_locate targets.2.2.2.1 (.file _ _))
  · rw [process_first.1] at h
    exact h.2.unique lands_second

theorem untargeted : batch.Untargeted progress [first, second] := by
  refine untargeted_pair.mpr ⟨fun r hr x c hl hx => ?_, fun r hr x c hl hx => ?_⟩
  · obtain rfl := Store.eq_of_looksAt hr fun source hs => (specifiers_of_reading readings.1 hs).2
    have hplace := readings.2.2.2.1.symm.trans hl
    rw [eq_of_fills hx, hidden] at hplace
    simp at hplace
  · rw [process_first.1] at hr hl
    obtain rfl := Store.eq_of_looksAt hr fun source hs => (specifiers_of_reading readings.2.1 hs).2
    have hplace := readings.2.2.2.2.1.symm.trans hl
    rw [eq_of_fills hx, hidden] at hplace
    simp at hplace

/-- The first source is seen as before once the test is written over. -/
theorem hasComponents_after (text : String) :
    HasComponents (cleared.put hidden (.file (.text text))) first := by
  let plan : Store.Plan := ⟨fun _ => False, fun x => x = hidden⟩
  have hfile : ∀ e, cleared.get? hidden = some e → ∃ c, e = .file c := by
    have hget := (Store.locate_ok_iff.mp targets.2.2.2.2.1).2.get?_of_at (by simp)
    intro e he
    exact ⟨_, Option.some.inj (he.symm.trans hget)⟩
  have hgrown := (Store.Grown.refl plan cleared).put rfl hfile (.text text)
  have hsettled : cleared.Settled plan first :=
    Store.settled_of_locate readings.2.2.2.2.2 (by decide)
  refine hasComponents_of_seesAlike (fun q hq => ?_) (hasComponents_of_reading readings.2.2.1)
  obtain rfl := Store.eq_of_looksAt hq fun source hs =>
    (specifiers_of_reading readings.2.2.1 hs).2
  exact hsettled.readsAlike hgrown

/-- The second time there is no test written by hand any more. -/
theorem not_repeats : ¬ batch.Repeats progress [first, second] := by
  intro h
  have hagain := h.head
  rw [process_first.2] at hagain
  obtain ⟨⟨text, hm, hstore⟩, _⟩ := process_second
  have hl := Store.locate_put targets.2.2.2.2.1 (.file _ _) (.text text)
  have hcheck := Placement.check_of_read (Store.read_ok_iff.mpr ⟨hidden, hl⟩) hm
  obtain ⟨_, components, ho⟩ := process_of_store (b := batch) rfl hstore (hasComponents_after text)
    (Placement.lands_of_locate hl (.file _ _)) hcheck rfl
  rw [ho] at hagain
  cases hagain

end Uncovered

/-- It is not enough that sources and imported modules are no targets: a run may not come to the same
again because a path comes to lead to a source, or because a test written by hand is uncovered. -/
theorem untargeted_not_repeats :
    (Detour.batch.tools = none ∧
      Detour.batch.WritesAll Detour.progress [Detour.second, Detour.first] ∧
      Detour.batch.Untargeted Detour.progress [Detour.second, Detour.first] ∧
      ¬ Detour.batch.Repeats Detour.progress [Detour.second, Detour.first]) ∧
    Uncovered.batch.tools = none ∧
      Uncovered.batch.WritesAll Uncovered.progress [Uncovered.first, Uncovered.second] ∧
      Uncovered.batch.Untargeted Uncovered.progress [Uncovered.first, Uncovered.second] ∧
      ¬ Uncovered.batch.Repeats Uncovered.progress [Uncovered.first, Uncovered.second] :=
  ⟨⟨rfl, Detour.writesAll, Detour.untargeted, Detour.not_repeats⟩,
    rfl, Uncovered.writesAll, Uncovered.untargeted, Uncovered.not_repeats⟩

end Batch

end Trellis
