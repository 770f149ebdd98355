import Trellis.Proofs.Batch.Ways

/-! # Tests written by hand

What a run leaves alone: every entry that is no generated text. The tools use a given summary, and
what they run is left open: it may change the store as it likes.

* `Step.Guarded` says of a step what it may do to the store: a reset may take the summary away, a
  reading does nothing, and a write finds its target open. Between that look and the write itself
  the directories of the target are made, and `Placement.Uncovers` is the one way in which this lets
  the write harm something. `Step.Valid.guarded` derives it for every step.
* `Batch.run_guarded` is the statement for whole runs, with what a run does for a source whose test
  is written by hand: nothing.
* `meddled` is a run that writes over a test written by hand. -/

namespace Trellis

open Coverage

variable {μ : Type}

/-! ### Steps -/

/-- Whether all that must be left alone was left alone, but for what stands at the end of a path. -/
def Store.SparesBut (p : Path) (s s' : Store) : Prop :=
  ∀ place e, s.get? place = some e → e.isKept = true →
    s'.get? place = some e ∨ s.locate false p = .ok (.at place e)

theorem Coverage.SummaryFile.reset_spares (f : SummaryFile) (s : Store) :
    s.SparesBut f.path (f.reset s).1 := by
  intro place e he _
  unfold SummaryFile.reset
  split
  · rename_i s' hr
    obtain ⟨q, e', hl, hget, rfl⟩ := Store.removeFile_ok hr
    by_cases hq : place = q
    · subst hq
      rw [he] at hget
      cases hget
      exact .inr hl
    · left
      rw [← he]
      exact Store.get?_erase_of_ne hq
  · exact .inl he
  · exact .inl he

namespace Coverage.Step

/-- What holds of a write that is done at a target, from one store to another. -/
structure GuardedWrite (s s' : Store) (target : Path) : Prop where
  /-- The target was open when it was looked at. -/
  open_before : Placement.Open s target
  /-- It is open when the file is written, unless making room uncovered something. -/
  open_room_iff : Placement.Open (Placement.room s target) target ↔ ¬ Placement.Uncovers s target
  /-- All that must be left alone is left alone, unless making room uncovered something. -/
  spares_iff : s.Spares s' ↔ ¬ Placement.Uncovers s target
  /-- Making room uncovers nothing where neither the target nor a link goes up. -/
  not_uncovers : s.IsTree → s.LinksGoDown → ".." ∉ Store.steps target.text →
    ¬ Placement.Uncovers s target

/-- What a step may do to the store. -/
def Guarded (f : SummaryFile) (s : Step μ) : Prop :=
  match s.event with
  | .reset _ => s.before.store.SparesBut f.path s.after.store
  | .ran .. => True
  | .measured .. | .enriched => s.after.store = s.before.store
  | .wrote target _ (.ok _) => GuardedWrite s.before.store s.after.store target
  | .wrote _ _ (.error _) => s.before.store.Spares s.after.store

/-- Every step does no more than it may. -/
theorem Valid.guarded {tools : Option (Tools μ)} {f : SummaryFile} {s : Step μ}
    (h : s.Valid tools) (ht : ∀ t ∈ tools, t.Uses f) : s.Guarded f := by
  obtain ⟨w, e, w'⟩ := s
  cases e with
  | reset r =>
      obtain ⟨t, hmem, h⟩ := h
      have hs := World.store_of_act h
      rw [(ht t hmem).reset_eq] at hs
      have hspares := f.reset_spares w.store
      rw [← hs] at hspares
      exact hspares
  | ran test source r => trivial
  | measured source r =>
      obtain ⟨t, hmem, h⟩ := h
      have hs := World.store_of_act h
      rw [(ht t hmem).measure_eq] at hs
      exact hs
  | enriched =>
      have h : w.note .enriched = w' := h
      rw [← h]
      rfl
  | wrote target text r =>
      have hw := World.store_of_write h
      cases r with
      | error e => exact (Placement.extends_of_write_error hw).spares
      | ok q =>
          exact ⟨Placement.open_of_write hw, Placement.open_room_iff hw,
            Placement.write_spares_iff hw, Placement.not_uncovers_of_down⟩

end Coverage.Step

/-! ### Runs -/

namespace Batch

/-- Every step of a run does no more than it may, whatever the runner does, and for a source whose
test is written by hand nothing is done at all. -/
theorem run_guarded {b : Batch μ}
    (ht : ∀ t ∈ b.tools, t.Uses (.ofConfig b.config.coverage b.root)) (g : Progress μ)
    (paths : List Path) :
    (∃ steps, Trace b.tools g.world steps (b.run g paths).1.world ∧
      ∀ s ∈ steps, s.Guarded (.ofConfig b.config.coverage b.root)) ∧
    ∀ i p target, (b.run g paths).2.files[i]? = some ⟨p, .manualTest target⟩ →
      (b.run g (paths.take (i + 1))).1.world = (b.run g (paths.take i)).1.world := by
  constructor
  · obtain ⟨steps, tr⟩ := b.run_trace g paths
    exact ⟨steps, tr, fun s hs => (tr.valid s hs).guarded ht⟩
  · intro i p target h
    rw [run_files_getElem?] at h
    obtain ⟨q, hq, h⟩ := Option.map_eq_some_iff.mp h
    rw [run_take_succ b g hq]
    rw [FileReport.mk.injEq] at h
    exact world_of_manualTest h.2

/-! ### A run that writes over a test written by hand -/

namespace Meddled

/-- The summary of the run. -/
def summary : SummaryFile := .ofConfig .empty ⟨"/"⟩

/-- A source beside a directory over which it is named below. -/
def start : Store :=
  ⟨[(["src"], .directory), (["src", "A.tsx"], .file (.text "export const A=()=><p/>")),
    (["tmp"], .directory)], []⟩

/-- What the runner leaves: the directory is gone, and the test is written by hand. -/
def left : Store :=
  ⟨[(["src"], .directory), (["src", "A.tsx"], .file (.text "export const A=()=><p/>")),
    (["src", "A.test.tsx"], .file (.text "// by hand"))], []⟩

/-- Tools whose first run leaves that, and every other nothing; the figure is always low. -/
def tools : Tools Bool :=
  { reset := fun s m => ((summary.reset s).1, m, (summary.reset s).2)
    run := fun _ _ s m => if m then (s, m, .error .emptyCommand) else (left, true, .ok ())
    measure := fun _ s m => (s, m, .ok (.ofNat 10))
    threshold := .ofNat 50 }

/-- The run. -/
def batch : Batch Bool := ⟨⟨"/"⟩, ⟨.empty, .empty, .empty⟩, some tools, false⟩

/-- How the source is named. -/
def source : Path := ⟨"tmp/../src/A.tsx"⟩

/-- The test of the source. -/
def target : Path := batch.policy.targetPath source

/-- The state in which the run starts. -/
def progress : Progress Bool := ⟨⟨start, false, []⟩, .empty⟩

theorem tools_uses : ∀ t ∈ batch.tools, t.Uses (.ofConfig batch.config.coverage batch.root) := by
  intro t ht
  cases ht
  exact ⟨fun _ _ => rfl, fun _ _ _ => rfl⟩

/-- Nothing is reset where there is no directory for the summary. -/
theorem reset_eq {s : Store} (h : s.get? ["coverage"] = none) : summary.reset s = (s, .ok ()) := by
  have hroute : Store.route summary.path = "coverage" :: ["coverage-summary.json"] := by
    decide +kernel
  have hl : s.locate false summary.path = .error .notFound :=
    Store.locate_of_missing ⟨by decide +kernel, by decide +kernel, by decide +kernel⟩ hroute
      ⟨by decide, by decide, by decide⟩ (by decide) h
  unfold SummaryFile.reset Store.removeFile
  rw [hl]
  rfl

/-- The first measurement gives a low figure, and leaves what the runner leaves. -/
theorem figure_eq {w : World Bool} (h : w.store.get? ["coverage"] = none) (hm : w.memory = false) :
    tools.figure target source w =
      (⟨left, true, w.acts ++ [.reset] ++ [.ran target source] ++ [.measured source]⟩,
        .ok (.ofNat 10)) := by
  have hreset : w.act .reset tools.reset = (⟨w.store, w.memory, w.acts ++ [.reset]⟩, .ok ()) := by
    unfold World.act tools
    dsimp only
    rw [reset_eq h]
  unfold Tools.figure
  rw [hreset, hm]
  rfl

/-- At the start the target is free. -/
theorem open_start : Placement.check start target = .ok .create ∧
    (Placement.makeRoom start target).2 = none ∧
    (Placement.room start target).locate true target = .ok (.free ["src"] "A.test.tsx") := by
  decide +kernel

/-- In what the runner leaves the target is not found, but once its directory is made it leads to the
test written by hand. -/
theorem hidden_left : Placement.check left target = .ok .create ∧
    (Placement.makeRoom left target).2 = none ∧
    (Placement.room left target).locate true target =
      .ok (.at ["src", "A.test.tsx"] (.file (.text "// by hand"))) := by
  decide +kernel

/-- The second measurement takes nothing off the journal. -/
theorem acts_refine {t : Tools μ} {test source : Path} {x : Decimal.Binary} {w : World μ} {a : Act}
    (h : a ∈ w.acts) : a ∈ (t.refine test source x w).1.acts := by
  obtain ⟨steps, tr, _⟩ := refine_trace t source test x w
  rw [tr.acts_eq]
  exact List.mem_append_left _ h

/-- The enriched module goes where the test written by hand stands. -/
theorem loop_wrote {text : String} (hm : Placement.carriesMarker text = true) {w : World Bool}
    (h : w.store.get? ["coverage"] = none) (hmem : w.memory = false) :
    .wrote target text left ∈ (tools.loop source target text w).1.acts := by
  have hlow : tools.threshold.le (.ofNat 10) = false := by decide +kernel
  unfold Tools.loop
  rw [figure_eq h hmem]
  dsimp only
  rw [hlow, if_neg Bool.false_ne_true]
  unfold World.note
  dsimp only
  rw [World.write_of_locate hm hidden_left.1 rfl hidden_left.2.1 hidden_left.2.2 (.file _ _)]
  dsimp only
  refine acts_refine ?_
  exact List.mem_append_right _ (List.mem_singleton.mpr rfl)

/-- The run writes over the test written by hand. -/
theorem run_wrote : ∃ text, Placement.carriesMarker text = true ∧
    .wrote target text left ∈ (batch.run progress [source]).1.world.acts := by
  obtain ⟨s, hs, hne⟩ : ∃ s, Source.loadComponent progress.world.store source = .ok s ∧
      componentsIn progress.world.store s ≠ [] := exists_components (by decide +kernel)
  have hm := batch.carriesMarker_suite source s (componentsIn progress.world.store s)
  have hw : progress.world.write target (batch.suite source s _ batch.firstPass) = _ :=
    World.write_of_locate (hm batch.firstPass) open_start.1 rfl open_start.2.1 open_start.2.2
      (.free _ _) false []
  have hc : Placement.check progress.world.store target = .ok .create := open_start.1
  -- The generated texts stay closed: that they carry the marker is all that is used of them.
  have hprocess := process_of_written (b := batch) (g := progress) (p := source) hs hne hc rfl hw
  rw [measured_of_minimal (b := batch) (t := tools) rfl rfl] at hprocess
  rw [run_singleton, (Prod.mk.inj hprocess).1]
  refine ⟨_, hm .enriched, ?_⟩
  have htarget : batch.policy.targetPath source = target := rfl
  rw [htarget]
  apply loop_wrote (hm .enriched)
  · rw [Store.get?_put_of_ne (by decide)]
    decide +kernel
  · rfl

end Meddled

theorem run_guarded_meddled :
    (∀ t ∈ Meddled.batch.tools,
      t.Uses (.ofConfig Meddled.batch.config.coverage Meddled.batch.root)) ∧
    ∃ steps, Trace Meddled.batch.tools Meddled.progress.world steps
        (Meddled.batch.run Meddled.progress [Meddled.source]).1.world ∧
      ∀ s ∈ steps, s.Guarded (.ofConfig Meddled.batch.config.coverage Meddled.batch.root) :=
  ⟨Meddled.tools_uses, (run_guarded Meddled.tools_uses Meddled.progress [Meddled.source]).1⟩

/-- A run may write over a test written by hand, whose target is not open when it is written. -/
theorem hand_written_replaced :
    ∃ text before, .wrote Meddled.target text before ∈
        (Meddled.batch.run Meddled.progress [Meddled.source]).1.world.acts ∧
      before.get? ["src", "A.test.tsx"] = some (.file (.text "// by hand")) ∧
      (Placement.write before Meddled.target text).1.get? ["src", "A.test.tsx"] =
        some (.file (.text text)) ∧
      text ≠ "// by hand" ∧
      ¬ Placement.Open (Placement.room before Meddled.target) Meddled.target := by
  obtain ⟨text, hm, hmem⟩ := Meddled.run_wrote
  refine ⟨text, Meddled.left, hmem, by decide +kernel, ?_, ?_, ?_⟩
  · have hw := Placement.write_of_permit
      (Placement.permit_ok_iff.mpr ⟨hm, Meddled.hidden_left.1, rfl⟩) Meddled.hidden_left.2.1
      (Store.write_of_locate Meddled.hidden_left.2.2 (.file _ _) (.text text))
    rw [hw]
    exact Store.get?_put_self (by simp) _
  · rintro rfl
    exact absurd hm (by decide +kernel)
  · rintro (hn | ⟨t, ht, hmt⟩)
    · rw [Store.read_ok_iff.mpr ⟨_, Meddled.hidden_left.2.2⟩] at hn
      cases hn
    · rw [Store.read_ok_iff.mpr ⟨_, Meddled.hidden_left.2.2⟩] at ht
      cases ht
      exact absurd hmt (by decide +kernel)

end Batch

end Trellis
