import Trellis.Proofs.Batch.Succession

/-! # Sources of one run

What sources of one run have to do with each other, when nothing is measured: nothing, if they are
kept apart.

* `Batch.Isolated` says that every source is reported as if it were alone, that the order is of no
  account for the files, and neither is a source that failed or was skipped. `Batch.run_isolated`
  derives it for sources that are kept apart.
* `Neighbors` is such a run. `Linked` and `Detour` are runs over different files, none of them a
  target, whose sources interfere: two targets are one file, or a source is reached through a
  directory that another one makes. -/

namespace Trellis

variable {μ : Type}

namespace Batch

open Coverage

/-! ### Runs -/

/-- Whether the sources of a run have nothing to do with each other. -/
structure Isolated (b : Batch μ) (g : Progress μ) (paths : List Path) : Prop where
  /-- Every source is reported, in order, with what becomes of it alone. -/
  files_eq : (b.run g paths).2.files = paths.map fun p => ⟨p, (b.process g p).2⟩
  /-- In the end every target holds what its source leaves there alone, and all other files are as
  they were. -/
  after : b.After g paths paths (b.run g paths).1.world.store
  /-- Without a source that failed or was skipped, all others are reported alike, and the files are
  the same. -/
  drop : ∀ before p after, paths = before ++ p :: after → (b.process g p).2.IsIdle →
    (b.run g (before ++ after)).2.files =
        (before ++ after).map (fun q => ⟨q, (b.process g q).2⟩) ∧
      (b.run g paths).1.world.store.SameFiles (b.run g (before ++ after)).1.world.store
  /-- In another order every source is reported alike, and the files are the same. -/
  reorder : ∀ qs : List Path, qs.Perm paths →
    (b.run g qs).2.files = qs.map (fun p => ⟨p, (b.process g p).2⟩) ∧
      (b.run g paths).1.world.store.SameFiles (b.run g qs).1.world.store

/-- Sources that are kept apart have nothing to do with each other, when nothing is measured. -/
theorem run_isolated {b : Batch μ} {g : Progress μ} {paths : List Path} (ht : b.tools = none)
    (sep : b.Separate g.world.store paths) : b.Isolated g paths := by
  obtain ⟨hreports, hafter⟩ := run_after sep ht (fun _ hq => hq) sep.targets
  refine ⟨hreports, hafter, fun before p after heq hidle => ?_, fun qs hperm => ?_⟩
  · have hsub : (before ++ after).Sublist paths := by
      rw [heq]
      exact List.Sublist.append_left (List.sublist_cons_self p after) before
    obtain ⟨hreports', hafter'⟩ := run_after sep ht (fun q hq => hsub.subset hq)
      (sep.targets.sublist hsub)
    refine ⟨hreports', hafter.sameFiles hafter' (fun q hq => hsub.subset hq) fun q hq => ?_⟩
    · rw [heq] at hq
      rw [List.mem_append]
      rcases List.mem_append.mp hq with hq | hq
      · exact .inl (.inl hq)
      · rcases List.mem_cons.mp hq with rfl | hq
        · exact .inr (sameFiles_of_idle ht hidle)
        · exact .inl (.inr hq)
  · obtain ⟨hreports', hafter'⟩ := run_after sep ht (fun q hq => hperm.mem_iff.mp hq)
      (sep.targets.perm hperm.symm Apart.symm)
    exact ⟨hreports', hafter.sameFiles hafter' (fun q hq => hperm.mem_iff.mp hq)
      fun q hq => .inl (hperm.mem_iff.mpr hq)⟩

/-! ### A run over sources that are kept apart -/

theorem apart_of_lands {b : Batch μ} {s : Store} {p q : Path} {x y : Place}
    (hx : Placement.Lands s (b.policy.targetPath p) x)
    (hy : Placement.Lands s (b.policy.targetPath q) y) (hne : x ≠ y) : b.Apart s p q :=
  fun _ hp hq => hne ((hx.unique hp.2).trans (hq.2.unique hy))

/-- What a source is read as in a store: its path, its specifiers, and whether it has components. -/
def reading (s : Store) (p : Path) : Option (Path × List String × Bool) :=
  (Source.loadComponent s p).toOption.map fun x => (x.path, x.specifiers, componentsIn s x ≠ [])

section reading
variable {s : Store} {p q : Path} {names : List String}

theorem hasComponents_of_reading (h : reading s p = some (q, names, true)) : HasComponents s p := by
  obtain ⟨x, hx, hf⟩ := exists_ok_of_map h
  exact ⟨x, hx, of_decide_eq_true (Prod.mk.inj (Prod.mk.inj hf).2).2⟩

theorem specifiers_of_reading {source : Source} {any : Bool}
    (h : reading s p = some (q, names, any)) (hs : Source.loadComponent s p = .ok source) :
    source.path = q ∧ source.specifiers = names := by
  obtain ⟨x, hx, hf⟩ := exists_ok_of_map h
  obtain rfl := Except.ok.inj (hx.symm.trans hs)
  exact ⟨(Prod.mk.inj hf).1, (Prod.mk.inj (Prod.mk.inj hf).2).1⟩

theorem error_of_reading (h : reading s p = none) : ∃ e, Source.loadComponent s p = .error e := by
  unfold reading at h
  cases hs : Source.loadComponent s p with
  | error e => exact ⟨e, rfl⟩
  | ok x =>
      rw [hs] at h
      cases h

theorem not_hasComponents_of_reading (h : reading s p = none) : ¬ HasComponents s p := by
  rintro ⟨x, hx, _⟩
  obtain ⟨e, he⟩ := error_of_reading h
  exact absurd (hx.symm.trans he) (by simp)

end reading

namespace Neighbors

/-- Two sources in two directories, one with a directory for tests, and a module that is imported. -/
def start : Store :=
  ⟨[(["p"], .directory),
    (["p", "A.tsx"], .file (.text "import{T}from'./t';export const A=()=><p/>")),
    (["p", "t.ts"], .file (.text "export type T=string")),
    (["q"], .directory), (["q", "__tests__"], .directory),
    (["q", "B.tsx"], .file (.text "export const B=()=><p/>"))], []⟩

/-- The run. -/
def batch : Batch Unit :=
  ⟨⟨"/"⟩, ⟨.empty, { Config.Generation.empty with testDirectory := some "__tests__" }, .empty⟩,
    none, false⟩

/-- The first source. -/
def first : Path := ⟨"/p/A.tsx"⟩

/-- The second source. -/
def second : Path := ⟨"/q/B.tsx"⟩

/-- A source that cannot be read. -/
def broken : Path := ⟨"/q"⟩

/-- The module that is imported. -/
def imported : Path := ⟨"/p/./t.ts"⟩

/-- The sources. -/
def paths : List Path := [first, broken, second]

/-- The state in which the run starts. -/
def progress : Progress Unit := ⟨⟨start, (), []⟩, .empty⟩

/-- How the sources are read. -/
theorem readings : reading start first = some (first, ["./t"], true) ∧
    reading start broken = none ∧ reading start second = some (second, [], true) := by
  decide +kernel

/-- What the paths lead to. -/
theorem located :
    start.locate true first = .ok (.at ["p", "A.tsx"]
      (.file (.text "import{T}from'./t';export const A=()=><p/>"))) ∧
    start.locate true broken = .ok (.at ["q"] .directory) ∧
    start.locate true second = .ok (.at ["q", "B.tsx"]
      (.file (.text "export const B=()=><p/>"))) ∧
    start.locate true imported = .ok (.at ["p", "t.ts"] (.file (.text "export type T=string"))) := by
  decide +kernel

/-- What the import leads to. -/
theorem import_found :
    (Store.moduleCandidates (first.parent.join ⟨"./t"⟩)).head? = some imported ∧
    (match start.lookup first "./t" with
      | .found m => m.specifiers
      | _ => []) = [] := by
  decide +kernel

/-- The directory for the test of the first source is free. -/
theorem room_first :
    start.locate false
        ⟨String.ofList (Path.trimEnd (batch.policy.targetPath first).parent.text.toList)⟩ =
      .ok (.free ["p"] "__tests__") ∧
    (Placement.makeRoom start (batch.policy.targetPath first)).2 = none ∧
    (Placement.room start (batch.policy.targetPath first)).get? ["p", "__tests__"] =
      some .directory ∧
    (Placement.room start (batch.policy.targetPath first)).locate true
        (batch.policy.targetPath first) = .ok (.free ["p", "__tests__"] "A.test.tsx") := by
  decide +kernel

/-- Once it is there, it is the room for the test. -/
theorem made_first :
    (batch.policy.targetPath first).parent.text ≠ "" ∧
    (start.put ["p", "__tests__"] .directory).locate false
        ⟨String.ofList (Path.trimEnd (batch.policy.targetPath first).parent.text.toList)⟩ =
      .ok (.at ["p", "__tests__"] .directory) ∧
    (start.put ["p", "__tests__"] .directory).locate true
      (batch.policy.targetPath first).parent = .ok (.at ["p", "__tests__"] .directory) ∧
    (start.put ["p", "__tests__"] .directory).locate true (batch.policy.targetPath first) =
      .ok (.free ["p", "__tests__"] "A.test.tsx") := by
  decide +kernel

/-- The directory for the test of the second source is there. -/
theorem room_second :
    (batch.policy.targetPath second).parent.text ≠ "" ∧
    start.locate false
        ⟨String.ofList (Path.trimEnd (batch.policy.targetPath second).parent.text.toList)⟩ =
      .ok (.at ["q", "__tests__"] .directory) ∧
    start.locate true (batch.policy.targetPath second).parent =
      .ok (.at ["q", "__tests__"] .directory) ∧
    start.locate true (batch.policy.targetPath second) =
      .ok (.free ["q", "__tests__"] "B.test.tsx") := by
  decide +kernel

theorem lands_first : Placement.Lands start (batch.policy.targetPath first)
    ["p", "__tests__", "A.test.tsx"] :=
  ⟨room_first.2.1, _, room_first.2.2.2, .free _ _⟩

theorem hasRoom_second :
    Placement.HasRoom start (batch.policy.targetPath second) ["q", "__tests__"] :=
  ⟨room_second.1, room_second.2.1, room_second.2.2.1⟩

theorem lands_second : Placement.Lands start (batch.policy.targetPath second)
    ["q", "__tests__", "B.test.tsx"] :=
  Placement.lands_of_locate room_second.2.2.2 (.free _ _)

/-- What is put where. -/
theorem eq_of_filled {x : Place} (h : (batch.plan start paths).filled x) :
    x = ["p", "__tests__", "A.test.tsx"] ∨ x = ["q", "__tests__", "B.test.tsx"] := by
  obtain ⟨p, hp, hhas, hlands⟩ := h
  rcases List.mem_cons.mp hp with rfl | hp
  · exact .inl (hlands.unique lands_first)
  · rcases List.mem_cons.mp hp with rfl | hp
    · exact absurd hhas (not_hasComponents_of_reading readings.2.1)
    · obtain rfl := List.mem_singleton.mp hp
      exact .inr (hlands.unique lands_second)

theorem not_filled {x : Place} (h : x ≠ ["p", "__tests__", "A.test.tsx"])
    (h' : x ≠ ["q", "__tests__", "B.test.tsx"]) : ¬ (batch.plan start paths).filled x := by
  intro hx
  rcases eq_of_filled hx with hx | hx
  · exact h hx
  · exact h' hx

/-- The directory for the test of the first source is made. -/
theorem steady_first : Placement.Steady (batch.plan start paths) start
    (batch.policy.targetPath first) := by
  have hhas := hasComponents_of_reading readings.1
  have hmem : first ∈ paths := List.mem_cons_self
  exact Placement.steady_of_new_room room_first.1 (.free _ _) rfl
    ⟨first, hmem, hhas, room_first.2.2.1⟩ (not_filled (by decide) (by decide))
    ⟨made_first.1, made_first.2.1, made_first.2.2.1⟩ made_first.2.2.2 (.free _ _)
    ⟨first, hmem, hhas, lands_first⟩ rfl

/-- The directory for the test of the second source is there. -/
theorem steady_second : Placement.Steady (batch.plan start paths) start
    (batch.policy.targetPath second) :=
  Placement.steady_of_room hasRoom_second room_second.2.2.2 (.free _ _)
    ⟨second, by simp [paths], hasComponents_of_reading readings.2.2, lands_second⟩

/-- The module that the first source imports imports nothing. -/
theorem specifiers_of_lookup {m : Source} (h : start.lookup first "./t" = .found m) :
    m.specifiers = [] := by
  have hfound := import_found.2
  rw [h] at hfound
  exact hfound

/-- What the first source imports, also through others. -/
theorem imports_first {source m : Source} (hs : Source.loadComponent start first = .ok source)
    (hm : source.Imports start.modules m) :
    (m.path = first ∧ m.specifiers = ["./t"]) ∨ m.specifiers = [] := by
  induction hm with
  | self => exact .inl (specifiers_of_reading readings.1 hs)
  | step _ himport hfound ih =>
      have hmem := Source.mem_specifiers himport
      rcases ih with ⟨hpath, hspecifiers⟩ | hnil
      · rw [hspecifiers, List.mem_singleton] at hmem
        rw [hmem, hpath, Store.modules_lookup] at hfound
        exact .inr (specifiers_of_lookup hfound)
      · rw [hnil] at hmem
        cases hmem

/-- The first path that is tried for the import is the module. -/
theorem eq_of_tries {q : Path} (h : start.Tries first "./t" q) : q = imported := by
  obtain ⟨_, before, after, heq, hbefore⟩ := h
  have hhead := import_found.1
  rw [heq] at hhead
  cases before with
  | nil => exact Option.some.inj hhead
  | cons r before =>
      have hr := hbefore r List.mem_cons_self
      obtain rfl : r = imported := Option.some.inj hhead
      rw [Store.isFile_iff.mpr ⟨_, _, located.2.2.2⟩] at hr
      cases hr

theorem separate : batch.Separate start paths where
  targets := by
    have hbroken (q : Path) : batch.Apart start broken q :=
      fun _ h => absurd h.1 (not_hasComponents_of_reading readings.2.1)
    refine List.pairwise_cons.mpr ⟨fun q hq => ?_, List.pairwise_pair.mpr (hbroken second)⟩
    rcases List.mem_cons.mp hq with rfl | hq
    · exact (hbroken first).symm
    · obtain rfl := List.mem_singleton.mp hq
      exact apart_of_lands lands_first lands_second (by decide)
  sources := by
    intro p hp
    rcases List.mem_cons.mp hp with rfl | hp
    · exact Store.settled_of_locate located.1 (not_filled (by decide) (by decide))
    · rcases List.mem_cons.mp hp with rfl | hp
      · exact Store.settled_of_directory located.2.1
      · obtain rfl := List.mem_singleton.mp hp
        exact Store.settled_of_locate located.2.2.1 (not_filled (by decide) (by decide))
  imports := by
    intro p hp source hs m hm name specifier imported himport q hq
    rcases List.mem_cons.mp hp with rfl | hp
    · have hmem := Source.mem_specifiers himport
      rcases imports_first hs hm with ⟨hpath, hspecifiers⟩ | hnil
      · rw [hspecifiers, List.mem_singleton] at hmem
        rw [hmem, hpath] at hq
        rw [eq_of_tries hq]
        exact Store.settled_of_locate located.2.2.2 (not_filled (by decide) (by decide))
      · rw [hnil] at hmem
        cases hmem
    · rcases List.mem_cons.mp hp with rfl | hp
      · obtain ⟨e, he⟩ := error_of_reading readings.2.1
        exact absurd (hs.symm.trans he) (by simp)
      · obtain rfl := List.mem_singleton.mp hp
        exact absurd himport (hm.not_import (specifiers_of_reading readings.2.2 hs).2)
  steady := by
    intro p hp hhas
    rcases List.mem_cons.mp hp with rfl | hp
    · exact steady_first
    · rcases List.mem_cons.mp hp with rfl | hp
      · exact absurd hhas (not_hasComponents_of_reading readings.2.1)
      · obtain rfl := List.mem_singleton.mp hp
        exact steady_second

end Neighbors

/-- A run over two sources and a broken one, in any order. -/
theorem run_isolated_neighbors :
    Neighbors.batch.tools = none ∧
      Neighbors.batch.Separate Neighbors.start Neighbors.paths ∧
      Neighbors.batch.Isolated Neighbors.progress Neighbors.paths :=
  ⟨rfl, Neighbors.separate,
    run_isolated (b := Neighbors.batch) (g := Neighbors.progress) rfl Neighbors.separate⟩

/-! ### Runs over different files that interfere -/

/-- Whether the sources of a run are different files, and none of them, nor any module that is
imported, is a target. -/
structure Distinct (b : Batch μ) (s : Store) (paths : List Path) : Prop where
  /-- Every path starts at the root. -/
  absolute : ∀ p ∈ paths, p.isAbsolute = true
  /-- Different paths lead to different places. -/
  files : paths.Pairwise fun p q => ∀ x e,
    s.locate true p = .ok (.at x e) → s.locate true q ≠ .ok (.at x e)
  /-- No source is a target. -/
  sources : ∀ p ∈ paths, ∀ x e, s.locate true p = .ok (.at x e) →
    ∀ q ∈ paths, ¬ b.LandsAt s q x
  /-- No module that is imported is a target. -/
  imports : ∀ p ∈ paths, ∀ source, Source.loadComponent s p = .ok source →
    ∀ m, source.Imports s.modules m → ∀ name specifier imported,
      TypeMember.import? m name = some (specifier, imported) →
        ∀ q, s.resolve? m.path specifier = some q → ∀ x e, s.locate true q = .ok (.at x e) →
          ∀ r ∈ paths, ¬ b.LandsAt s r x

/-- What becomes of the second of two sources in a run that isolates them. -/
theorem Isolated.second {b : Batch μ} {g : Progress μ} {p q : Path} (h : b.Isolated g [p, q]) :
    (b.process (b.process g p).1 q).2 = (b.process g q).2 := by
  have hfiles : (b.run g [p, q]).2.files[1]? = some ⟨q, (b.process g q).2⟩ := by
    rw [h.files_eq]
    rfl
  rw [run_files_getElem?] at hfiles
  have htake : (b.run g ([p, q].take 1)).1 = (b.process g p).1 := run_singleton b g p
  rw [htake] at hfiles
  exact (FileReport.mk.inj (Option.some.inj hfiles)).2

namespace Linked

/-- Two sources, and a link where the test of the first belongs. -/
def start : Store :=
  ⟨[(["A.tsx"], .file (.text "export const A=()=><p/>")),
    (["B.tsx"], .file (.text "export const B=()=><p/>")),
    (["A.test.tsx"], .link ⟨"B.test.tsx"⟩)], []⟩

/-- The run. -/
def batch : Batch Unit := ⟨⟨"/"⟩, ⟨.empty, .empty, .empty⟩, none, false⟩

/-- The first source. -/
def first : Path := ⟨"/A.tsx"⟩

/-- The second source. -/
def second : Path := ⟨"/B.tsx"⟩

/-- The state in which the run starts. -/
def progress : Progress Unit := ⟨⟨start, (), []⟩, .empty⟩

/-- How the sources are read, and where. -/
theorem readings : reading start first = some (first, [], true) ∧
    reading start second = some (second, [], true) ∧
    start.locate true first = .ok (.at ["A.tsx"] (.file (.text "export const A=()=><p/>"))) ∧
    start.locate true second = .ok (.at ["B.tsx"] (.file (.text "export const B=()=><p/>"))) := by
  decide +kernel

/-- Alone, each module is new, and put at the same place. -/
theorem targets : Placement.check start (batch.policy.targetPath first) = .ok .create ∧
    Placement.check start (batch.policy.targetPath second) = .ok .create ∧
    (Placement.makeRoom start (batch.policy.targetPath first)).2 = none ∧
    (Placement.makeRoom start (batch.policy.targetPath second)).2 = none ∧
    (Placement.room start (batch.policy.targetPath first)).locate true
      (batch.policy.targetPath first) = .ok (.free [] "B.test.tsx") ∧
    (Placement.room start (batch.policy.targetPath second)).locate true
      (batch.policy.targetPath second) = .ok (.free [] "B.test.tsx") ∧
    (Placement.room start (batch.policy.targetPath first)).locate true
      (batch.policy.targetPath second) = .ok (.free [] "B.test.tsx") := by
  decide +kernel

theorem lands_first : Placement.Lands start (batch.policy.targetPath first) ["B.test.tsx"] :=
  ⟨targets.2.2.1, _, targets.2.2.2.2.1, .free _ _⟩

theorem lands_second : Placement.Lands start (batch.policy.targetPath second) ["B.test.tsx"] :=
  ⟨targets.2.2.2.1, _, targets.2.2.2.2.2.1, .free _ _⟩

theorem eq_of_landsAt {p : Path} (hp : p ∈ [first, second]) {x : Place}
    (h : batch.LandsAt start p x) : x = ["B.test.tsx"] := by
  rcases List.mem_cons.mp hp with rfl | hp
  · exact h.2.unique lands_first
  · obtain rfl := List.mem_singleton.mp hp
    exact h.2.unique lands_second

theorem distinct : batch.Distinct start [first, second] where
  absolute := by decide
  files := by
    refine List.pairwise_pair.mpr fun x e hx hx' => ?_
    rw [readings.2.2.1] at hx
    rw [readings.2.2.2] at hx'
    exact absurd (hx.trans hx'.symm) (by simp)
  sources := by
    intro p hp x e hl q hq hx
    rw [eq_of_landsAt hq hx] at hl
    rcases List.mem_cons.mp hp with rfl | hp
    · rw [readings.2.2.1] at hl
      simp at hl
    · obtain rfl := List.mem_singleton.mp hp
      rw [readings.2.2.2] at hl
      simp at hl
  imports := by
    intro p hp source hs m hm name specifier imported himport
    rcases List.mem_cons.mp hp with rfl | hp
    · exact absurd himport (hm.not_import (specifiers_of_reading readings.1 hs).2)
    · obtain rfl := List.mem_singleton.mp hp
      exact absurd himport (hm.not_import (specifiers_of_reading readings.2.1 hs).2)

/-- The module of the first source is where the test of the second belongs. -/
theorem check_after : Placement.check (batch.process progress first).1.world.store
    (batch.policy.targetPath second) = .ok .regenerate := by
  obtain ⟨source, hs, hne⟩ := hasComponents_of_reading readings.1
  obtain ⟨hstore, _⟩ := process_of_lands (b := batch) (g := progress) rfl hs hne lands_first
    targets.1 rfl
  refine Placement.check_of_read ?_ (batch.carriesMarker_suite first source
    (componentsIn start source) batch.firstPass)
  rw [hstore]
  exact Store.read_of_write (Store.write_of_locate targets.2.2.2.2.2.2 (.free _ _) _)

/-- The second source is not reported as it is alone. -/
theorem not_isolated : ¬ batch.Isolated progress [first, second] := by
  intro h
  obtain ⟨source, hs, hne⟩ := hasComponents_of_reading readings.2.1
  obtain ⟨_, halone⟩ := process_of_lands (b := batch) (g := progress) rfl hs hne lands_second
    targets.2.1 rfl
  have hcheck := check_of_generated (b := batch) rfl (h.second.trans halone)
  exact absurd (check_after.symm.trans hcheck) (by simp)

end Linked

namespace Detour

/-- Two sources. -/
def start : Store :=
  ⟨[(["A.tsx"], .file (.text "export const A=()=><p/>")),
    (["B.tsx"], .file (.text "export const B=()=><p/>"))], []⟩

/-- The run. -/
def batch : Batch Unit :=
  ⟨⟨"/"⟩, ⟨.empty, { Config.Generation.empty with testDirectory := some "__tests__" }, .empty⟩,
    none, false⟩

/-- The first source. -/
def first : Path := ⟨"/A.tsx"⟩

/-- The second source, reached through the directory that is made for the first. -/
def second : Path := ⟨"/__tests__/../B.tsx"⟩

/-- The state in which the run starts. -/
def progress : Progress Unit := ⟨⟨start, (), []⟩, .empty⟩

/-- How the sources are read, and where. -/
theorem readings : reading start first = some (first, [], true) ∧ reading start second = none ∧
    start.locate true first = .ok (.at ["A.tsx"] (.file (.text "export const A=()=><p/>"))) ∧
    start.locate true second = .error .notFound := by
  decide +kernel

/-- The module of the first source is put in a directory that is made for it. -/
theorem target_first : Placement.check start (batch.policy.targetPath first) = .ok .create ∧
    (Placement.makeRoom start (batch.policy.targetPath first)).2 = none ∧
    (Placement.room start (batch.policy.targetPath first)).locate true
      (batch.policy.targetPath first) = .ok (.free ["__tests__"] "A.test.tsx") := by
  decide +kernel

/-- Once the directory is there, the second source is found. -/
theorem room_second :
    reading (Placement.room start (batch.policy.targetPath first)) second =
      some (second, [], true) ∧
    (Placement.room start (batch.policy.targetPath first)).locate true second =
      .ok (.at ["B.tsx"] (.file (.text "export const B=()=><p/>"))) := by
  decide +kernel

theorem lands_first : Placement.Lands start (batch.policy.targetPath first)
    ["__tests__", "A.test.tsx"] :=
  ⟨target_first.2.1, _, target_first.2.2, .free _ _⟩

theorem eq_of_landsAt {p : Path} (hp : p ∈ [first, second]) {x : Place}
    (h : batch.LandsAt start p x) : x = ["__tests__", "A.test.tsx"] := by
  rcases List.mem_cons.mp hp with rfl | hp
  · exact h.2.unique lands_first
  · obtain rfl := List.mem_singleton.mp hp
    exact absurd h.1 (not_hasComponents_of_reading readings.2.1)

theorem distinct : batch.Distinct start [first, second] where
  absolute := by decide
  files := by
    refine List.pairwise_pair.mpr fun x e _ hx' => ?_
    rw [readings.2.2.2] at hx'
    cases hx'
  sources := by
    intro p hp x e hl q hq hx
    rw [eq_of_landsAt hq hx] at hl
    rcases List.mem_cons.mp hp with rfl | hp
    · rw [readings.2.2.1] at hl
      simp at hl
    · obtain rfl := List.mem_singleton.mp hp
      rw [readings.2.2.2] at hl
      cases hl
  imports := by
    intro p hp source hs m hm name specifier imported himport
    rcases List.mem_cons.mp hp with rfl | hp
    · exact absurd himport (hm.not_import (specifiers_of_reading readings.1 hs).2)
    · obtain rfl := List.mem_singleton.mp hp
      obtain ⟨e, he⟩ := error_of_reading readings.2.1
      exact absurd (hs.symm.trans he) (by simp)

/-- Once the module of the first source is there, the second can be read, whatever the module says. -/
theorem load_of_put (text : String) : ∃ source,
    Source.loadComponent ((Placement.room start (batch.policy.targetPath first)).put
      ["__tests__", "A.test.tsx"] (.file (.text text))) second = .ok source := by
  let plan : Store.Plan := ⟨fun _ => False, fun x => x = ["__tests__", "A.test.tsx"]⟩
  have hfree := (Store.locate_ok_iff.mp target_first.2.2).2.get?_of_free
  have hgrown := (Store.Grown.refl plan _).put rfl
    (fun e he => absurd (hfree.symm.trans he) (by simp)) (.text text)
  have hsettled : (Placement.room start (batch.policy.targetPath first)).Settled plan second :=
    Store.settled_of_locate room_second.2 (by decide)
  obtain ⟨source, hs, _⟩ := exists_ok_of_map room_second.1
  exact ⟨source, (hsettled.readsAlike hgrown).loadComponent_eq.trans hs⟩

/-- After the first source, the second can be read. -/
theorem load_after : ∃ source,
    Source.loadComponent (batch.process progress first).1.world.store second = .ok source := by
  obtain ⟨source, hs, hne⟩ := hasComponents_of_reading readings.1
  obtain ⟨hstore, _⟩ := process_of_lands (b := batch) (g := progress) rfl hs hne lands_first
    target_first.1 rfl
  rw [hstore]
  exact load_of_put _

/-- The second source is not reported as it is alone. -/
theorem not_isolated : ¬ batch.Isolated progress [first, second] := by
  intro h
  obtain ⟨e, he⟩ := error_of_reading readings.2.1
  obtain ⟨_, halone⟩ := process_of_unreadable (b := batch) (g := progress) he
  obtain ⟨e', he'⟩ := load_of_unreadable (b := batch) rfl (h.second.trans halone)
  obtain ⟨source, hs⟩ := load_after
  exact absurd (hs.symm.trans he') (by simp)

end Detour

/-- Sources that are different files, none of them a target, may interfere: by a target that they
share, or by a directory that is made. -/
theorem distinct_interfere :
    (Linked.batch.tools = none ∧
      Linked.batch.Distinct Linked.start [Linked.first, Linked.second] ∧
      ¬ Linked.batch.Isolated Linked.progress [Linked.first, Linked.second]) ∧
    Detour.batch.tools = none ∧
      Detour.batch.Distinct Detour.start [Detour.first, Detour.second] ∧
      ¬ Detour.batch.Isolated Detour.progress [Detour.first, Detour.second] :=
  ⟨⟨rfl, Linked.distinct, Linked.not_isolated⟩, rfl, Detour.distinct, Detour.not_isolated⟩

end Batch

end Trellis
