import Trellis.Proofs.Batch.Ways

/-! # Reports agree with the store

What a report says of a module is what the store holds.

* `Coverage.Step.LeavesAlone` says that a tool leaves what is read at a target.
  `Trace.read_after`: under this, the text written last is read there in the end.
* `History.lastWritten_eq`: of the ways of the loop, the refined ones write the enriched module last,
  and all others leave the minimal one.
* `Batch.Agrees` says what an outcome promises: for a generated module, its text at the target for
  the pass that is reported, and for all else, that every file is as it was.
  `Batch.process_agrees` proves it. -/

namespace Trellis

variable {μ : Type}

/-! ### The text that was written last -/

namespace Coverage

/-- Whether a step of a tool leaves what is read at a target. -/
def Step.LeavesAlone (target : Path) (s : Step μ) : Prop :=
  s.event.isTool = true → ∀ c, s.before.store.read target = .ok c →
    s.after.store.read target = .ok c

/-- Whether tools leave what is read at a target in every store. -/
structure Tools.LeaveAlone (t : Tools μ) (target : Path) : Prop where
  /-- A reset leaves it. -/
  reset : ∀ s m c, s.read target = .ok c → (t.reset s m).1.read target = .ok c
  /-- A run leaves it. -/
  run : ∀ test source s m c, s.read target = .ok c → (t.run test source s m).1.read target = .ok c
  /-- A reading leaves it. -/
  measure : ∀ source s m c, s.read target = .ok c → (t.measure source s m).1.read target = .ok c

theorem Tools.LeaveAlone.step {tools : Option (Tools μ)} {target : Path}
    (h : ∀ t ∈ tools, t.LeaveAlone target) {s : Step μ} (hv : s.Valid tools) :
    s.LeavesAlone target := by
  obtain ⟨w, e, w'⟩ := s
  intro htool c hc
  dsimp only at hc ⊢
  cases e with
  | reset r =>
      obtain ⟨t, ht, hv⟩ := hv
      rw [World.store_of_act hv]
      exact (h t ht).reset _ _ c hc
  | ran test source r =>
      obtain ⟨t, ht, hv⟩ := hv
      rw [World.store_of_act hv]
      exact (h t ht).run test source _ _ c hc
  | measured source r =>
      obtain ⟨t, ht, hv⟩ := hv
      rw [World.store_of_act hv]
      exact (h t ht).measure source _ _ c hc
  | enriched => cases htool
  | wrote q text r => cases htool

/-- A reset leaves what is read at a target that the summary is apart from. -/
theorem SummaryFile.read_reset {f : SummaryFile} {s : Store} {target : Path} {c : Content}
    (apart : s.Apart f.path target) (hr : s.read target = .ok c) :
    (f.reset s).1.read target = .ok c := by
  unfold reset
  split
  · rename_i s' hs
    exact Store.read_of_removeFile hs apart hr
  · exact hr
  · exact hr

/-- Tools that use a summary apart from a target leave the target alone if what they run does. -/
theorem Step.leavesAlone_of_uses {tools : Option (Tools μ)} {f : SummaryFile} {s : Step μ}
    (hv : s.Valid tools) (ht : ∀ t ∈ tools, t.Uses f) {target : Path}
    (apart : s.before.store.Apart f.path target)
    (hrun : s.event.isRun = true → ∀ c, s.before.store.read target = .ok c →
      s.after.store.read target = .ok c) : s.LeavesAlone target := by
  obtain ⟨w, e, w'⟩ := s
  intro htool c hc
  dsimp only at apart hrun hc ⊢
  cases e with
  | reset r =>
      obtain ⟨t, hmem, hv⟩ := hv
      rw [World.store_of_act hv, (ht t hmem).reset_eq]
      exact SummaryFile.read_reset apart hc
  | ran test source r => exact hrun rfl c hc
  | measured source r =>
      obtain ⟨t, hmem, hv⟩ := hv
      rw [World.store_of_act hv, (ht t hmem).measure_eq]
      exact hc
  | enriched => cases htool
  | wrote q text r => cases htool

/-- The text that is written last, or the old text if none is. -/
def lastWritten (old : String) : List Event → String
  | [] => old
  | .wrote _ text (.ok _) :: es => lastWritten text es
  | _ :: es => lastWritten old es

theorem lastWritten_cons (old : String) (e : Event) (es : List Event) :
    lastWritten old (e :: es) = lastWritten (lastWritten old [e]) es := by
  cases e with
  | wrote target text r => cases r <;> rfl
  | reset r => rfl
  | ran test source r => rfl
  | measured source r => rfl
  | enriched => rfl

/-- What is read at a target after one step. -/
theorem Step.Valid.read_after {tools : Option (Tools μ)} {s : Step μ} (h : s.Valid tools)
    {target : Path} {old : String} (hl : s.LeavesAlone target)
    (ht : ∀ q text r, s.event = .wrote q text r → q = target)
    (hr : s.before.store.read target = .ok (.text old)) :
    s.after.store.read target = .ok (.text (lastWritten old [s.event])) := by
  obtain ⟨w, e, w'⟩ := s
  cases e with
  | reset r => exact hl rfl _ hr
  | ran test source r => exact hl rfl _ hr
  | measured source r => exact hl rfl _ hr
  | enriched =>
      have h : w.note .enriched = w' := h
      rw [← h]
      exact hr
  | wrote q text r =>
      obtain rfl := ht q text r rfl
      have hw := World.store_of_write h
      cases r with
      | ok p => exact Placement.read_of_write hw
      | error e => exact (Placement.extends_of_write_error hw).read_ok hr

/-- Where the tools leave a target alone, the text written last is read there. -/
theorem Trace.read_after {tools : Option (Tools μ)} {w w' : World μ} {steps : List (Step μ)}
    (tr : Trace tools w steps w') {target : Path} (hl : ∀ s ∈ steps, s.LeavesAlone target)
    (ht : ∀ q text r, .wrote q text r ∈ steps.map Step.event → q = target) {old : String}
    (hr : w.store.read target = .ok (.text old)) :
    w'.store.read target = .ok (.text (lastWritten old (steps.map Step.event))) := by
  -- What is read at the target is carried along the steps, so the old text is general.
  induction steps generalizing w old with
  | nil =>
      have e : w = w' := tr
      rw [← e]
      exact hr
  | cons s steps ih =>
      obtain ⟨rfl, hv, tr⟩ := tr
      have hs := hv.read_after (hl s List.mem_cons_self)
        (fun q text r he => ht q text r (he ▸ List.mem_cons_self)) hr
      have hrest := ih tr (fun s' hs' => hl s' (List.mem_cons_of_mem _ hs'))
        (fun q text r he => ht q text r (List.mem_cons_of_mem _ he)) hs
      rw [List.map_cons, lastWritten_cons]
      exact hrest

/-! ### The ways of the loop -/

section loop
variable {t : Tools μ} {source test : Path} {enriched : String} {report : Report} {es : List Event}

/-- A refined module is the enriched one, and any other is the one that was there. -/
theorem History.lastWritten_eq (h : History t source test enriched report es) (old : String) :
    lastWritten old es = if report.state = .refined then enriched else old := by
  cases h with
  | unmeasured hb => cases hb <;> rfl
  | enough _ => rfl
  | unwritten _ => rfl
  | remeasured _ => rfl
  | unremeasured _ hb => cases hb <;> rfl

theorem wrote_notMem_reading (x : Decimal.Binary) (q : Path) (text : String)
    (r : Except WriteFault Placement) : .wrote q text r ∉ reading test source x := by
  simp [reading]

theorem wrote_mem_refinement {x : Decimal.Binary} {w r : Except WriteFault Placement} {q : Path}
    {text : String} :
    .wrote q text r ∈ refinement source test enriched x w ↔ q = test ∧ text = enriched ∧ r = w := by
  rw [refinement, List.mem_append]
  simp [wrote_notMem_reading]

theorem Broken.wrote_notMem {f : Failure} (h : Broken test source f es) (q : Path) (text : String)
    (r : Except WriteFault Placement) : .wrote q text r ∉ es := by
  cases h <;> simp

/-- The loop writes nothing but the enriched module at its target. -/
theorem History.of_wrote (h : History t source test enriched report es) {q : Path} {text : String}
    {r : Except WriteFault Placement} (hw : .wrote q text r ∈ es) : q = test ∧ text = enriched := by
  cases h with
  | unmeasured hb => exact absurd hw (hb.wrote_notMem q text r)
  | enough _ => exact absurd hw (wrote_notMem_reading _ q text r)
  | unwritten _ =>
      obtain ⟨hq, htext, _⟩ := wrote_mem_refinement.mp hw
      exact ⟨hq, htext⟩
  | remeasured _ =>
      rcases List.mem_append.mp hw with hw | hw
      · obtain ⟨hq, htext, _⟩ := wrote_mem_refinement.mp hw
        exact ⟨hq, htext⟩
      · exact absurd hw (wrote_notMem_reading _ q text r)
  | unremeasured _ hb =>
      rcases List.mem_append.mp hw with hw | hw
      · obtain ⟨hq, htext, _⟩ := wrote_mem_refinement.mp hw
        exact ⟨hq, htext⟩
      · exact absurd hw (hb.wrote_notMem q text r)

theorem Failure.ofWrite_inj {e e' : WriteFault} (h : Failure.ofWrite e = .ofWrite e') :
    e.message = e'.message := by
  rw [Failure.ofWrite, Failure.ofWrite, Failure.mk.injEq] at h
  exact h.2.2

theorem Broken.ne_ofWrite {f : Failure} (h : Broken test source f es) (e : WriteFault) :
    f ≠ .ofWrite e := by
  cases h <;> simp [Failure.ofCoverage, Failure.ofRun, Failure.ofWrite]

/-- A report of the loop blames a write only if a write failed. -/
theorem History.wrote_of_failure (h : History t source test enriched report es) {e : WriteFault}
    (hf : report.failure = some (.ofWrite e)) :
    ∃ e', .wrote test enriched (.error e') ∈ es ∧ e'.message = e.message := by
  cases h with
  | unmeasured hb => exact absurd (Option.some.inj hf) (hb.ne_ofWrite e)
  | enough _ => cases hf
  | @unwritten _ e' _ =>
      exact ⟨e', wrote_mem_refinement.mpr ⟨rfl, rfl, rfl⟩, Failure.ofWrite_inj (Option.some.inj hf)⟩
  | remeasured _ => cases hf
  | unremeasured _ hb => exact absurd (Option.some.inj hf) (hb.ne_ofWrite e)

end loop

end Coverage

/-! ### The marker is never missed -/

namespace WriteFault

theorem head?_append {s : String} {c : Char} (h : s.toList.head? = some c) (t : String) :
    (s ++ t).toList.head? = some c := by
  rw [String.toList_append, List.head?_append, h, Option.some_or]

/-- The first letter of the wording of a write fault tells which one it is. -/
theorem head?_message (e : WriteFault) :
    e.message.toList.head? = some (match e with
      | manualTestPresent _ => 'R'
      | missingMarker _ => 'G'
      | store .. => 'I') := by
  have hr : "Refusing to overwrite hand-written test ".toList.head? = some 'R' := by decide +kernel
  have hg : "Generated content for ".toList.head? = some 'G' := by decide +kernel
  have hi : "I/O error writing ".toList.head? = some 'I' := by decide +kernel
  cases e with
  | manualTestPresent p => exact head?_append hr _
  | missingMarker p => exact head?_append (head?_append hg _) _
  | store p cause => exact head?_append (head?_append (head?_append hi _) _) _

theorem message_ne_missingMarker {e : WriteFault} (h : ∀ q, e ≠ .missingMarker q) (q : Path) :
    e.message ≠ (missingMarker q).message := by
  intro hm
  have he := e.head?_message
  rw [hm, head?_message] at he
  cases e with
  | manualTestPresent p => exact absurd (Option.some.inj he) (show 'G' ≠ 'R' by decide)
  | missingMarker p => exact h p rfl
  | store p cause => exact absurd (Option.some.inj he) (show 'G' ≠ 'I' by decide)

end WriteFault

namespace Coverage

/-- The loop never blames a missing marker, if the enriched module carries it. -/
theorem History.failure_ne_missingMarker {t : Tools μ} {source test : Path} {enriched : String}
    {report : Report} {tools : Option (Tools μ)} {w w' : World μ} {steps : List (Step μ)}
    (h : History t source test enriched report (steps.map Step.event))
    (tr : Trace tools w steps w') (hm : Placement.carriesMarker enriched = true) (q : Path) :
    report.failure ≠ some (.ofWrite (.missingMarker q)) := by
  intro hf
  obtain ⟨e, he, hmessage⟩ := h.wrote_of_failure hf
  obtain ⟨s, hs, hse⟩ := List.mem_map.mp he
  have hv := tr.valid s hs
  unfold Step.Valid at hv
  rw [hse] at hv
  have hne := Placement.ne_missingMarker_of_write_error (World.store_of_write hv) hm
  exact WriteFault.message_ne_missingMarker hne q hmessage

end Coverage

namespace Batch

open Coverage

/-- Whether an outcome blames a missing marker. -/
def Outcome.BlamesMarker : Outcome → Prop
  | .unwritable _ _ message => ∃ q, message = (WriteFault.missingMarker q).message
  | .generated _ _ _ _ (some feedback) =>
    ∃ q, feedback.failure = some (.ofWrite (.missingMarker q))
  | _ => False

/-- Whether the module of a source for a pass stands at a target, as generated from what the source
held before. -/
def Stands (b : Batch μ) (p : Path) (before after : Store) (target : Path) (names : List String)
    (pass : Pass) : Prop :=
  target = b.policy.targetPath p ∧
  ∃ source, Source.loadComponent before p = .ok source ∧
    names = (componentsIn before source).map (·.name) ∧
    after.read target = .ok (.text (b.suite p source (componentsIn before source) pass)) ∧
    Placement.carriesMarker (b.suite p source (componentsIn before source) pass) = true ∧
    Placement.check after target = .ok .regenerate

/-- What the outcome for a source says of the store before and the store after. -/
structure Agrees (b : Batch μ) (p : Path) (before after : Store) (o : Outcome) : Prop where
  /-- A module that is reported stands at its target, for the pass that is reported. -/
  stands : ∀ target names pass placement feedback,
    o = .generated target names pass placement feedback →
      b.Stands p before after target names pass
  /-- If no module is reported, all files are as they were. -/
  sameFiles : (∀ target names pass placement feedback,
    o ≠ .generated target names pass placement feedback) → before.SameFiles after
  /-- A missing marker is never blamed. -/
  not_blamesMarker : ¬ o.BlamesMarker

section outcomes
variable {b : Batch μ} {p : Path} {source : Source} {w w' : World μ}

theorem Agrees.of_sameFiles {before after : Store} {o : Outcome} (h : before.SameFiles after)
    (ho : ∀ target names pass placement feedback,
      o ≠ .generated target names pass placement feedback) (hb : ¬ o.BlamesMarker) :
    b.Agrees p before after o :=
  ⟨fun _ _ _ _ _ he => absurd he (ho _ _ _ _ _), fun _ => h, hb⟩

/-- A module that is read at its target in the end agrees with the report of its pass. -/
theorem Agrees.placed {pass : Pass} {placement : Placement} {feedback : Option Coverage.Report}
    (hs : Source.loadComponent w.store p = .ok source)
    (hr : w'.store.read (b.policy.targetPath p) =
      .ok (.text (b.suite p source (componentsIn w.store source) pass)))
    (hb : ¬ (b.placed p (componentsIn w.store source) pass placement feedback).BlamesMarker) :
    b.Agrees p w.store w'.store
      (b.placed p (componentsIn w.store source) pass placement feedback) := by
  have hm := b.carriesMarker_suite p source (componentsIn w.store source) pass
  refine ⟨fun target names pass' _ _ he => ?_, fun ho => absurd rfl (ho _ _ _ _ _), hb⟩
  unfold Batch.placed at he
  rw [Outcome.generated.injEq] at he
  obtain ⟨rfl, rfl, rfl, _, _⟩ := he
  exact ⟨rfl, source, hs, rfl, hr, hm, Placement.check_of_read hr hm⟩

/-- A refusal of the store is no missing marker. -/
theorem not_blamesMarker_store (target q : Path) (cause : FileFault) (code : String) :
    ¬ (Outcome.unwritable target code (WriteFault.store q cause).message).BlamesMarker := by
  rintro ⟨q', hq⟩
  exact WriteFault.message_ne_missingMarker (by simp) q' hq

/-- The outcome of a source that goes its way agrees with the store. -/
theorem Way.agrees {steps : List (Step μ)} {o : Outcome}
    (way : b.Way p source (componentsIn w.store source) (steps.map Step.event) o)
    (hs : Source.loadComponent w.store p = .ok source) (tr : Trace b.tools w steps w')
    (hl : ∀ s ∈ steps, s.LeavesAlone (b.policy.targetPath p)) :
    b.Agrees p w.store w'.store o := by
  generalize hes : steps.map Step.event = es at way
  cases way with
  | unchecked =>
      rw [List.map_eq_nil_iff] at hes
      subst hes
      cases tr
      exact .of_sameFiles (.refl _) (by simp) (not_blamesMarker_store _ _ _ _)
  | manual =>
      rw [List.map_eq_nil_iff] at hes
      subst hes
      cases tr
      exact .of_sameFiles (.refl _) (by simp) id
  | unwritten =>
      obtain ⟨s, rest, rfl, he, hrest⟩ := List.map_eq_cons_iff.mp hes
      rw [List.map_eq_nil_iff] at hrest
      subst hrest
      obtain ⟨rfl, hv, rfl⟩ := tr
      unfold Step.Valid at hv
      rw [he] at hv
      exact .of_sameFiles
        (Placement.extends_of_write_error (World.store_of_write hv)).sameFiles (by simp)
        (not_blamesMarker_store _ _ _ _)
  | written _ =>
      obtain ⟨s, rest, rfl, he, hrest⟩ := List.map_eq_cons_iff.mp hes
      rw [List.map_eq_nil_iff] at hrest
      subst hrest
      obtain ⟨rfl, hv, rfl⟩ := tr
      unfold Step.Valid at hv
      rw [he] at hv
      exact .placed hs (Placement.read_of_write (World.store_of_write hv)) id
  | measured ht hpass hist =>
      obtain ⟨s, rest, rfl, he, hrest⟩ := List.map_eq_cons_iff.mp hes
      subst hrest
      obtain ⟨rfl, hv, tr⟩ := tr
      unfold Step.Valid at hv
      rw [he] at hv
      -- The first write settles what is read before the loop; the loop writes at the target only.
      have hread := tr.read_after (fun s' hs' => hl s' (List.mem_cons_of_mem _ hs'))
        (fun q text r hw => (hist.of_wrote hw).1)
        (Placement.read_of_write (World.store_of_write hv))
      refine .placed hs ?_ ?_
      · rw [hread, hist.lastWritten_eq, hpass]
        split <;> rfl
      · rintro ⟨q, hq⟩
        exact hist.failure_ne_missingMarker tr (b.carriesMarker_suite p source _ _) q hq

end outcomes

/-- What is reported of a source agrees with the store, if the tools leave its target alone. -/
theorem process_agrees (b : Batch μ) (g : Progress μ) (p : Path)
    (alone : ∀ steps, Trace b.tools g.world steps (b.process g p).1.world →
      ∀ s ∈ steps, s.LeavesAlone (b.policy.targetPath p)) :
    b.Agrees p g.world.store (b.process g p).1.world.store (b.process g p).2 := by
  rcases b.process_cases g p with ⟨e, _, hw, ho⟩ | ⟨source, hs, ⟨_, hw, ho⟩ | ⟨hw, ho⟩⟩
  · rw [hw, ho]
    exact .of_sameFiles (.refl _) (by simp) id
  · rw [hw, ho]
    exact .of_sameFiles (.refl _) (by simp) id
  · obtain ⟨steps, tr, way⟩ := b.place_way p source (componentsIn g.world.store source) g.world
    rw [← hw] at tr
    rw [← ho] at way
    exact way.agrees hs tr (alone steps tr)

/-! ### A run in which a module is refined -/

namespace Quiet

/-- Tools that do nothing to the store; the figure is always low. -/
def tools : Tools Unit :=
  { reset := fun s _ => (s, (), .ok ())
    run := fun _ _ s _ => (s, (), .ok ())
    measure := fun _ s _ => (s, (), .ok (.ofNat 10))
    threshold := .ofNat 50 }

/-- The run. -/
def batch : Batch Unit := ⟨⟨"/"⟩, ⟨.empty, .empty, .empty⟩, some tools, false⟩

/-- A source in the root. -/
def start : Store := ⟨[(["A.tsx"], .file (.text "export const A=()=><p/>"))], []⟩

/-- The source. -/
def source : Path := ⟨"A.tsx"⟩

/-- The state in which the run starts. -/
def progress : Progress Unit := ⟨⟨start, (), []⟩, .empty⟩

theorem leaveAlone : ∀ t ∈ batch.tools, t.LeaveAlone (batch.policy.targetPath source) := by
  intro t ht
  cases ht
  exact ⟨fun _ _ _ h => h, fun _ _ _ _ _ h => h, fun _ _ _ _ h => h⟩

/-- The module is written. -/
theorem generated : ∃ names pass placement feedback, (batch.process progress source).2 =
    .generated (batch.policy.targetPath source) names pass placement feedback := by
  obtain ⟨s, hs, hne⟩ : ∃ s, Source.loadComponent progress.world.store source = .ok s ∧
      componentsIn progress.world.store s ≠ [] := exists_components (by decide +kernel)
  have hm := batch.carriesMarker_suite source s (componentsIn progress.world.store s)
  have hc : Placement.check start (batch.policy.targetPath source) = .ok .create := by
    decide +kernel
  have hroom : (Placement.makeRoom start (batch.policy.targetPath source)).2 = none := by
    decide +kernel
  have hl : (Placement.room start (batch.policy.targetPath source)).locate true
      (batch.policy.targetPath source) = .ok (.free [] "A.test.tsx") := by decide +kernel
  have hw : progress.world.write (batch.policy.targetPath source)
      (batch.suite source s _ batch.firstPass) = _ :=
    World.write_of_locate (hm batch.firstPass) hc rfl hroom hl (.free _ _) () []
  have hprocess := process_of_written (b := batch) (g := progress) (p := source) hs hne hc rfl hw
  rw [measured_of_minimal (b := batch) (t := tools) rfl rfl] at hprocess
  have ho := (Prod.mk.inj hprocess).2
  unfold placed at ho
  exact ⟨_, _, _, _, ho⟩

end Quiet

theorem process_agrees_quiet :
    (∀ steps, Trace Quiet.batch.tools Quiet.progress.world steps
        (Quiet.batch.process Quiet.progress Quiet.source).1.world →
      ∀ s ∈ steps, s.LeavesAlone (Quiet.batch.policy.targetPath Quiet.source)) ∧
    ∃ pass source,
      Source.loadComponent Quiet.progress.world.store Quiet.source = .ok source ∧
      (Quiet.batch.process Quiet.progress Quiet.source).1.world.store.read
          (Quiet.batch.policy.targetPath Quiet.source) =
        .ok (.text (Quiet.batch.suite Quiet.source source
          (componentsIn Quiet.progress.world.store source) pass)) := by
  have alone : ∀ steps, Trace Quiet.batch.tools Quiet.progress.world steps
        (Quiet.batch.process Quiet.progress Quiet.source).1.world →
      ∀ s ∈ steps, s.LeavesAlone (Quiet.batch.policy.targetPath Quiet.source) :=
    fun _ tr s hs => Tools.LeaveAlone.step Quiet.leaveAlone (tr.valid s hs)
  have agrees := process_agrees Quiet.batch Quiet.progress Quiet.source alone
  obtain ⟨names, pass, placement, feedback, ho⟩ := Quiet.generated
  obtain ⟨_, source, hs, _, hr, _⟩ := agrees.stands _ _ _ _ _ ho
  exact ⟨alone, pass, source, hs, hr⟩

end Batch

end Trellis
