import Mathlib.Data.List.Basic
import Trellis.Proofs.Coverage.Trace

/-! # The states of the coverage loop

What the loop may do, and what it reports then.

* `reading` is a measurement that gave a figure, `Broken` one that failed, with its failure.
* `History` lists the ways in which the loop may go, each with its report: `loop_history` says that
  it goes in one of them, whatever the tools answer and whatever the store allows.
* `Lawful` collects what holds of a report and the events behind it; `History.lawful` derives it. -/

namespace Trellis.Coverage

open Decimal (Binary)

variable {μ : Type}

/-! ### Figures -/

theorem le_total_of_numbers {a b : Binary} (ha : a ≠ .notANumber) (hb : b ≠ .notANumber) :
    a.le b = true ∨ b.le a = true := by
  cases a with
  | notANumber => exact absurd rfl ha
  | infinite s =>
      cases b with
      | notANumber => exact absurd rfl hb
      | infinite s' => cases s <;> cases s' <;> simp [Binary.le]
      | finite s' m' e' => cases s <;> simp [Binary.le]
  | finite s m e =>
      cases b with
      | notANumber => exact absurd rfl hb
      | infinite s' => cases s' <;> simp [Binary.le]
      | finite s' m' e' =>
          simp only [Binary.le, decide_eq_true_eq]
          exact Int.le_total _ _

theorem le_notANumber (a : Binary) : a.le .notANumber = false := by
  cases a <;> rfl

/-- A figure that does not reach another lies strictly below it, unless one of them is no number. -/
theorem not_le_iff (a b : Binary) :
    b.le a = false ↔ a.lt b = true ∨ a = .notANumber ∨ b = .notANumber := by
  unfold Binary.lt
  constructor
  · intro h
    by_cases ha : a = .notANumber
    · exact .inr (.inl ha)
    · by_cases hb : b = .notANumber
      · exact .inr (.inr hb)
      · rcases le_total_of_numbers ha hb with hab | hba
        · exact .inl (by rw [hab, h]; rfl)
        · rw [h] at hba
          cases hba
  · rintro (h | rfl | rfl)
    · rw [Bool.and_eq_true, Bool.not_eq_eq_eq_not] at h
      exact h.2
    · exact le_notANumber b
    · rfl

/-! ### Measurements -/

section measurements
variable (test source : Path)

/-- The events of a measurement that gives a figure. -/
def reading (x : Binary) : List Event :=
  [.reset (.ok ()), .ran test source (.ok ()), .measured source (.ok x)]

/-- The events of a measurement that fails, with its failure. -/
inductive Broken : Failure → List Event → Prop
  | unreset (e : CoverageFault) : Broken (.ofCoverage e) [.reset (.error e)]
  | unrun (e : RunFault) : Broken (.ofRun e) [.reset (.ok ()), .ran test source (.error e)]
  | unread (e : CoverageFault) :
      Broken (.ofCoverage e) [.reset (.ok ()), .ran test source (.ok ()), .measured source (.error e)]

/-- The events of a measurement with some result. -/
def Measurement (r : Except Failure Binary) (es : List Event) : Prop :=
  match r with
  | .ok x => es = reading test source x
  | .error f => Broken test source f es

/-- A measurement resets, runs and reads, and stops at the first failure. -/
theorem figure_trace (t : Tools μ) (w : World μ) :
    ∃ steps, Trace (some t) w steps (t.figure test source w).1 ∧
      Measurement test source (t.figure test source w).2 (steps.map Step.event) := by
  unfold Tools.figure
  cases hreset : w.act .reset t.reset with
  | mk w₁ r₁ =>
      have h₁ : Step.Valid (some t) ⟨w, .reset r₁, w₁⟩ := ⟨t, rfl, hreset⟩
      have tr₁ := Trace.single h₁
      cases r₁ with
      | error e => exact ⟨_, tr₁, .unreset e⟩
      | ok _ =>
          dsimp only
          cases hrun : w₁.act (.ran test source) (t.run test source) with
          | mk w₂ r₂ =>
              have h₂ : Step.Valid (some t) ⟨w₁, .ran test source r₂, w₂⟩ := ⟨t, rfl, hrun⟩
              have tr₂ := tr₁.append (Trace.single h₂)
              cases r₂ with
              | error e => exact ⟨_, tr₂, .unrun e⟩
              | ok _ =>
                  dsimp only
                  cases hmeasure : w₂.act (.measured source) (t.measure source) with
                  | mk w₃ r₃ =>
                      have h₃ : Step.Valid (some t) ⟨w₂, .measured source r₃, w₃⟩ :=
                        ⟨t, rfl, hmeasure⟩
                      have tr₃ := tr₂.append (Trace.single h₃)
                      cases r₃ with
                      | error e => exact ⟨_, tr₃, .unread e⟩
                      | ok x => exact ⟨_, tr₃, rfl⟩

end measurements

/-! ### The ways of the loop -/

section loop
variable (t : Tools μ) (source test : Path) (enriched : String)

/-- The events up to a write of the enriched module, after a figure `x` below the threshold. -/
def refinement (x : Binary) (r : Except WriteFault Placement) : List Event :=
  reading test source x ++ [.enriched, .wrote test enriched r]

/-- The ways in which the loop may go, each with its report. -/
inductive History : Report → List Event → Prop
  | unmeasured {f : Failure} {es : List Event} :
      Broken test source f es → History ⟨.initial, none, none, some f⟩ es
  | enough {x : Binary} :
      t.threshold.le x = true → History ⟨.initial, some x, none, none⟩ (reading test source x)
  | unwritten {x : Binary} {e : WriteFault} :
      t.threshold.le x = false →
      History ⟨.initial, some x, none, some (.ofWrite e)⟩
        (refinement source test enriched x (.error e))
  | remeasured {x y : Binary} {p : Placement} :
      t.threshold.le x = false →
      History ⟨.refined, some x, some y, none⟩
        (refinement source test enriched x (.ok p) ++ reading test source y)
  | unremeasured {x : Binary} {p : Placement} {f : Failure} {es : List Event} :
      t.threshold.le x = false → Broken test source f es →
      History ⟨.refined, some x, none, some f⟩ (refinement source test enriched x (.ok p) ++ es)

/-- The second measurement ends the loop, whatever it gives. -/
theorem refine_trace (x : Binary) (w : World μ) :
    ∃ steps, Trace (some t) w steps (t.refine test source x w).1 ∧
      ((∃ y, (t.refine test source x w).2 = ⟨.refined, some x, some y, none⟩ ∧
        steps.map Step.event = reading test source y) ∨
      ∃ f, (t.refine test source x w).2 = ⟨.refined, some x, none, some f⟩ ∧
        Broken test source f (steps.map Step.event)) := by
  obtain ⟨steps, tr, hm⟩ := figure_trace test source t w
  unfold Tools.refine
  cases hsecond : t.figure test source w with
  | mk w₁ r =>
      rw [hsecond] at tr hm
      cases r with
      | error f => exact ⟨steps, tr, .inr ⟨f, rfl, hm⟩⟩
      | ok y => exact ⟨steps, tr, .inl ⟨y, rfl, hm⟩⟩

/-- The loop goes in one of its ways, whatever the tools answer. -/
theorem loop_history (w : World μ) :
    ∃ steps, Trace (some t) w steps (t.loop source test enriched w).1 ∧
      History t source test enriched (t.loop source test enriched w).2
        (steps.map Step.event) := by
  obtain ⟨steps, tr, hm⟩ := figure_trace test source t w
  unfold Tools.loop
  cases hfirst : t.figure test source w with
  | mk w₁ r =>
      rw [hfirst] at tr hm
      cases r with
      | error f => exact ⟨steps, tr, .unmeasured hm⟩
      | ok x =>
          have hx : steps.map Step.event = reading test source x := hm
          dsimp only
          cases hle : t.threshold.le x with
          | true => exact ⟨steps, tr, hx ▸ .enough hle⟩
          | false =>
              rw [if_neg Bool.false_ne_true]
              have h₁ : Step.Valid (some t) ⟨w₁, .enriched, w₁.note .enriched⟩ := rfl
              cases hwrite : (w₁.note .enriched).write test enriched with
              | mk w₂ r₂ =>
                  have h₂ : Step.Valid (some t)
                      ⟨w₁.note .enriched, .wrote test enriched r₂, w₂⟩ := hwrite
                  have tr₂ := tr.append ((Trace.single h₁).append (Trace.single h₂))
                  cases r₂ with
                  | error e =>
                      refine ⟨_, tr₂, ?_⟩
                      rw [List.map_append, hx]
                      exact .unwritten hle
                  | ok p =>
                      obtain ⟨steps', tr', hy | hf⟩ := refine_trace t source test x w₂
                      · obtain ⟨y, hr, hy⟩ := hy
                        refine ⟨_, tr₂.append tr', ?_⟩
                        rw [List.map_append, List.map_append, hx, hy, hr]
                        exact .remeasured hle
                      · obtain ⟨f, hr, hf⟩ := hf
                        refine ⟨_, tr₂.append tr', ?_⟩
                        rw [List.map_append, List.map_append, hx, hr]
                        exact .unremeasured hle hf

end loop

/-! ### What holds in all of them -/

section laws
variable {test source : Path} {enriched : String}

theorem reading_inj {x y : Binary} : reading test source x = reading test source y ↔ x = y := by
  simp [reading]

theorem reading_prefix_append {x y : Binary} {es : List Event} :
    reading test source x <+: reading test source y ++ es ↔ x = y := by
  simp [reading, List.cons_prefix_cons]

namespace Broken

variable {f : Failure} {es : List Event}

theorem not_prefix (h : Broken test source f es) (x : Binary) :
    ¬ reading test source x <+: es := by
  cases h <;> simp [reading, List.cons_prefix_cons]

theorem countP_isRun_le (h : Broken test source f es) : es.countP Event.isRun ≤ 1 := by
  cases h <;> simp [List.countP_cons, Event.isRun]

theorem enriched_notMem (h : Broken test source f es) : .enriched ∉ es := by
  cases h <;> simp

theorem getLast (h : Broken test source f es) :
    ∃ e, es.getLast? = some e ∧ e.failure? = some f := by
  cases h <;> exact ⟨_, rfl, rfl⟩

end Broken

/-- Every reading follows directly on a successful run after a successful reset. -/
def ReadsAfterRuns (test source : Path) (es : List Event) : Prop :=
  ∀ pre s r post, es = pre ++ .measured s r :: post →
    s = source ∧ ∃ pre', pre = pre' ++ [.reset (.ok ()), .ran test source (.ok ())]

namespace ReadsAfterRuns

theorem append {es es' : List Event} (h : ReadsAfterRuns test source es)
    (h' : ReadsAfterRuns test source es') : ReadsAfterRuns test source (es ++ es') := by
  intro pre s r post e
  rcases List.append_eq_append_iff.mp e with ⟨mid, rfl, e'⟩ | ⟨mid, e', rest⟩
  · obtain ⟨hs, pre', rfl⟩ := h' mid s r post e'
    exact ⟨hs, es ++ pre', by rw [List.append_assoc]⟩
  · cases mid with
    | nil =>
        rw [List.append_nil] at e'
        obtain ⟨hs, pre', hp⟩ := h' [] s r post rest.symm
        exact absurd hp.symm (by simp)
    | cons m mid =>
        rw [List.cons_append, List.cons.injEq] at rest
        exact h pre s r mid (rest.1 ▸ e')

theorem of_notMem {es : List Event} (h : ∀ s r, .measured s r ∉ es) :
    ReadsAfterRuns test source es := by
  intro pre s r post e
  exact absurd (by simp [e]) (h s r)

theorem measurement (r : Except CoverageFault Binary) :
    ReadsAfterRuns test source [.reset (.ok ()), .ran test source (.ok ()), .measured source r] := by
  intro pre s r' post e
  rcases pre with _ | ⟨a, _ | ⟨b, _ | ⟨c, pre⟩⟩⟩
  · simp at e
  · simp at e
  · simp only [List.cons_append, List.nil_append, List.cons.injEq, Event.measured.injEq] at e
    obtain ⟨rfl, rfl, ⟨rfl, _⟩, _⟩ := e
    exact ⟨rfl, [], rfl⟩
  · simp at e

end ReadsAfterRuns

theorem Broken.readsAfterRuns {f : Failure} {es : List Event} (h : Broken test source f es) :
    ReadsAfterRuns test source es := by
  cases h with
  | unreset e => exact .of_notMem (by simp)
  | unrun e => exact .of_notMem (by simp)
  | unread e => exact .measurement (.error e)

theorem readsAfterRuns_refinement (x : Binary) (r : Except WriteFault Placement) :
    ReadsAfterRuns test source (refinement source test enriched x r) :=
  (ReadsAfterRuns.measurement (.ok x)).append (.of_notMem (by simp))

theorem enriched_notMem_reading (x : Binary) : .enriched ∉ reading test source x := by
  simp [reading]

/-- Asking for the enriched module divides the events of a refinement in one place only. -/
theorem refinement_split {x : Binary} {r : Except WriteFault Placement} {es pre post : List Event}
    (hes : .enriched ∉ es)
    (h : refinement source test enriched x r ++ es = pre ++ .enriched :: post) :
    pre = reading test source x := by
  have hrest : .enriched ∉ Event.wrote test enriched r :: es := by simpa using hes
  have e : reading test source x ++ .enriched :: (Event.wrote test enriched r :: es) =
      pre ++ .enriched :: post := by
    rw [← h, refinement, List.append_assoc]
    rfl
  exact ((List.append_cons_inj_of_notMem (enriched_notMem_reading x) hrest).mp e).1.symm

theorem countP_isEnriched_refinement (x : Binary) (r : Except WriteFault Placement)
    (es : List Event) :
    (refinement source test enriched x r ++ es).countP Event.isEnriched =
      es.countP Event.isEnriched + 1 := by
  simp [refinement, reading, List.countP_cons, Event.isEnriched]

theorem countP_isRun_refinement (x : Binary) (r : Except WriteFault Placement) (es : List Event) :
    (refinement source test enriched x r ++ es).countP Event.isRun = es.countP Event.isRun + 1 := by
  simp [refinement, reading, List.countP_cons, Event.isRun]

theorem countP_isRun_reading (x : Binary) : (reading test source x).countP Event.isRun = 1 := by
  simp [reading, List.countP_cons, Event.isRun]

theorem countP_isEnriched_eq_zero {es : List Event} (h : .enriched ∉ es) :
    es.countP Event.isEnriched = 0 := by
  rw [List.countP_eq_zero]
  intro e he hen
  cases e <;> simp [Event.isEnriched] at hen
  exact h he

theorem refinement_append_inj {x y : Binary} {r r' : Except WriteFault Placement}
    {es es' : List Event} :
    refinement source test enriched x r ++ es = refinement source test enriched y r' ++ es' ↔
      x = y ∧ r = r' ∧ es = es' := by
  simp [refinement, reading]

theorem reading_prefix_refinement {x y : Binary} {r : Except WriteFault Placement}
    {es : List Event} :
    reading test source x <+: refinement source test enriched y r ++ es ↔ x = y := by
  unfold refinement
  rw [List.append_assoc, reading_prefix_append]

theorem reading_prefix_reading {x y : Binary} :
    reading test source x <+: reading test source y ↔ x = y := by
  rw [← List.append_nil (reading test source y), reading_prefix_append]

theorem reading_ne_refinement {x y : Binary} {r : Except WriteFault Placement} {es : List Event} :
    reading test source x ≠ refinement source test enriched y r ++ es := by
  simp [refinement, reading]

end laws

/-- What holds of the report of the loop and of the events behind it. -/
structure Lawful (t : Tools μ) (source test : Path) (enriched : String) (r : Report)
    (es : List Event) : Prop where
  /-- The loop ends refined exactly when the first figure was read, lay below the threshold, and
  the enriched module was written. -/
  refined_iff : r.state = .refined ↔ ∃ x p rest, t.threshold.le x = false ∧
    es = refinement source test enriched x (.ok p) ++ rest
  /-- The enriched module is asked for once at most. -/
  enriched_once : es.countP Event.isEnriched ≤ 1
  /-- It is asked for only when a first figure lay below the threshold. -/
  enriched_below : ∀ pre post, es = pre ++ .enriched :: post →
    ∃ x, t.threshold.le x = false ∧ pre = reading test source x
  /-- The test is run twice at most. -/
  runs_le : es.countP Event.isRun ≤ 2
  /-- It is run twice only when the loop ends refined. -/
  refined_of_runs : es.countP Event.isRun = 2 → r.state = .refined
  /-- A figure is read only right after a reset and a run that succeeded. -/
  readsAfterRuns : ReadsAfterRuns test source es
  /-- The first figure is reported exactly when the first measurement gave one. -/
  initial_iff : ∀ x, r.initialCoverage = some x ↔ reading test source x <+: es
  /-- The second figure is reported exactly when the measurement after a refinement gave one. -/
  refined_coverage_iff : ∀ y, r.refinedCoverage = some y ↔ r.state = .refined ∧
    ∃ x p, es = refinement source test enriched x (.ok p) ++ reading test source y
  /-- No failure is reported exactly when the first figure reached the threshold, or the
  measurement after a refinement gave a figure. -/
  failure_none_iff : r.failure = none ↔
    (∃ x, t.threshold.le x = true ∧ es = reading test source x) ∨
    ∃ x p y, es = refinement source test enriched x (.ok p) ++ reading test source y
  /-- A failure is that of the last event, and its stage is that event's. -/
  failure_last : ∀ f, r.failure = some f → ∃ e, es.getLast? = some e ∧ e.failure? = some f ∧
    e.stage? = some f.stage

namespace Lawful

variable {t : Tools μ} {source test : Path} {enriched : String} {es : List Event} {x : Binary}

theorem of_unmeasured {f : Failure} (h : Broken test source f es) :
    Lawful t source test enriched ⟨.initial, none, none, some f⟩ es := by
  have hne : ∀ x r rest, es ≠ refinement source test enriched x r ++ rest := by
    intro x r rest e
    exact h.not_prefix x (e ▸ reading_prefix_refinement.mpr rfl)
  have hrun := h.countP_isRun_le
  constructor
  case refined_iff => exact ⟨nofun, fun ⟨x, p, rest, _, e⟩ => absurd e (hne x _ rest)⟩
  case enriched_once =>
    rw [countP_isEnriched_eq_zero h.enriched_notMem]
    exact Nat.zero_le 1
  case enriched_below =>
    intro pre post e
    exact absurd (by simp [e]) h.enriched_notMem
  case runs_le => omega
  case refined_of_runs => omega
  case readsAfterRuns => exact h.readsAfterRuns
  case initial_iff => exact fun x => ⟨nofun, fun hp => absurd hp (h.not_prefix x)⟩
  case refined_coverage_iff => exact fun y => ⟨nofun, fun hs => nomatch hs.1⟩
  case failure_none_iff =>
    refine ⟨nofun, ?_⟩
    rintro (⟨x, _, e⟩ | ⟨x, p, y, e⟩)
    · exact absurd (e ▸ List.prefix_rfl) (h.not_prefix x)
    · exact absurd e (hne x _ _)
  case failure_last =>
    intro g hg
    obtain ⟨e, he, hf⟩ := h.getLast
    obtain rfl : f = g := Option.some.inj hg
    exact ⟨e, he, hf, Event.stage_of_failure? hf⟩

theorem of_enough (hle : t.threshold.le x = true) :
    Lawful t source test enriched ⟨.initial, some x, none, none⟩ (reading test source x) := by
  constructor
  case refined_iff => exact ⟨nofun, fun ⟨y, p, rest, _, e⟩ => absurd e reading_ne_refinement⟩
  case enriched_once =>
    rw [countP_isEnriched_eq_zero (enriched_notMem_reading x)]
    exact Nat.zero_le 1
  case enriched_below =>
    intro pre post e
    have hx : .enriched ∉ reading test source x := enriched_notMem_reading x
    exact absurd (by simp [e]) hx
  case runs_le => simp [countP_isRun_reading]
  case refined_of_runs => simp [countP_isRun_reading]
  case readsAfterRuns => exact .measurement (.ok x)
  case initial_iff =>
    intro y
    rw [reading_prefix_reading, Option.some.injEq]
    exact eq_comm
  case refined_coverage_iff => exact fun y => ⟨nofun, fun hs => nomatch hs.1⟩
  case failure_none_iff => exact ⟨fun _ => .inl ⟨x, hle, rfl⟩, fun _ => rfl⟩
  case failure_last => exact nofun

/-- The laws once the enriched module was asked for, from what was reported of its write and of the
measurement that may have followed. -/
theorem of_below {r : Report} {w : Except WriteFault Placement} (hle : t.threshold.le x = false)
    (hinitial : r.initialCoverage = some x) (hes : .enriched ∉ es)
    (hreads : ReadsAfterRuns test source es)
    (hstate : r.state = .refined ↔ ∃ p, w = .ok p)
    (hruns : es.countP Event.isRun ≤ 1) (hagain : es.countP Event.isRun = 1 → r.state = .refined)
    (hrefined : ∀ y, r.refinedCoverage = some y ↔ r.state = .refined ∧ es = reading test source y)
    (hnone : r.failure = none ↔ r.state = .refined ∧ ∃ y, es = reading test source y)
    (hlast : ∀ f, r.failure = some f → ∃ e,
      (refinement source test enriched x w ++ es).getLast? = some e ∧ e.failure? = some f) :
    Lawful t source test enriched r (refinement source test enriched x w ++ es) := by
  constructor
  case refined_iff =>
    constructor
    · intro hr
      obtain ⟨p, rfl⟩ := hstate.mp hr
      exact ⟨x, p, es, hle, rfl⟩
    · rintro ⟨y, p, rest, _, e⟩
      exact hstate.mpr ⟨p, (refinement_append_inj.mp e).2.1⟩
  case enriched_once =>
    refine Nat.le_of_eq ?_
    rw [countP_isEnriched_refinement, countP_isEnriched_eq_zero hes]
  case enriched_below =>
    intro pre post e
    exact ⟨x, hle, refinement_split hes e⟩
  case runs_le =>
    rw [countP_isRun_refinement]
    omega
  case refined_of_runs =>
    rw [countP_isRun_refinement]
    intro h
    exact hagain (by omega)
  case readsAfterRuns => exact (readsAfterRuns_refinement x w).append hreads
  case initial_iff =>
    intro y
    rw [reading_prefix_refinement, hinitial, Option.some.injEq]
    exact eq_comm
  case refined_coverage_iff =>
    intro y
    rw [hrefined]
    constructor
    · rintro ⟨hr, rfl⟩
      obtain ⟨p, rfl⟩ := hstate.mp hr
      exact ⟨hr, x, p, rfl⟩
    · rintro ⟨hr, z, p, e⟩
      exact ⟨hr, (refinement_append_inj.mp e).2.2⟩
  case failure_none_iff =>
    rw [hnone]
    constructor
    · rintro ⟨hr, y, rfl⟩
      obtain ⟨p, rfl⟩ := hstate.mp hr
      exact .inr ⟨x, p, y, rfl⟩
    · rintro (⟨z, _, e⟩ | ⟨z, p, y, e⟩)
      · exact absurd e.symm reading_ne_refinement
      · obtain ⟨_, hw, he⟩ := refinement_append_inj.mp e
        exact ⟨hstate.mpr ⟨p, hw⟩, y, he⟩
  case failure_last =>
    intro f hf
    obtain ⟨e, he, hfail⟩ := hlast f hf
    exact ⟨e, he, hfail, Event.stage_of_failure? hfail⟩

end Lawful

/-- Every way of the loop obeys the laws. -/
theorem History.lawful {t : Tools μ} {source test : Path} {enriched : String} {r : Report}
    {es : List Event} (h : History t source test enriched r es) :
    Lawful t source test enriched r es := by
  cases h with
  | unmeasured hb => exact .of_unmeasured hb
  | enough hle => exact .of_enough hle
  | @unwritten x e hle =>
      rw [← List.append_nil (refinement source test enriched x (.error e))]
      refine .of_below hle rfl (by simp) (.of_notMem (by simp)) ⟨nofun, nofun⟩ (by simp) (by simp)
        (fun y => ⟨nofun, fun hs => nomatch hs.1⟩) ⟨nofun, fun hs => nomatch hs.1⟩ ?_
      intro f hf
      exact ⟨.wrote test enriched (.error e), rfl, hf⟩
  | @remeasured x y p hle =>
      refine .of_below hle rfl (enriched_notMem_reading y) (.measurement (.ok y))
        ⟨fun _ => ⟨p, rfl⟩, fun _ => rfl⟩ (by simp [countP_isRun_reading]) (fun _ => rfl) ?_
        ⟨fun _ => ⟨rfl, y, rfl⟩, fun _ => rfl⟩ nofun
      intro z
      rw [reading_inj]
      exact ⟨fun hz => ⟨rfl, Option.some.inj hz⟩, fun hz => congrArg some hz.2⟩
  | @unremeasured x p f es hle hb =>
      have hne : ∀ y, es ≠ reading test source y := fun y e =>
        hb.not_prefix y (e ▸ List.prefix_rfl)
      refine .of_below hle rfl hb.enriched_notMem hb.readsAfterRuns
        ⟨fun _ => ⟨p, rfl⟩, fun _ => rfl⟩ hb.countP_isRun_le (fun _ => rfl)
        (fun y => ⟨nofun, fun hs => absurd hs.2 (hne y)⟩)
        ⟨nofun, fun ⟨_, y, e⟩ => absurd e (hne y)⟩ ?_
      intro g hg
      obtain ⟨e, he, hf⟩ := hb.getLast
      obtain rfl : f = g := Option.some.inj hg
      exact ⟨e, by rw [List.getLast?_append, he]; rfl, hf⟩

/-- **The loop is a state machine.** Whatever the tools answer and whatever the store allows, the
events of the loop and its report obey the laws. A figure that does not reach the threshold lies
strictly below it, unless one of the two is no number. -/
theorem loop_lawful (t : Tools μ) (source test : Path) (enriched : String) (w : World μ) :
    (∃ steps, Trace (some t) w steps (t.loop source test enriched w).1 ∧
      Lawful t source test enriched (t.loop source test enriched w).2 (steps.map Step.event)) ∧
    ∀ x, t.threshold.le x = false ↔
      x.lt t.threshold = true ∨ x = .notANumber ∨ t.threshold = .notANumber := by
  refine ⟨?_, fun x => not_le_iff x t.threshold⟩
  obtain ⟨steps, tr, h⟩ := loop_history t source test enriched w
  exact ⟨steps, tr, h.lawful⟩

end Trellis.Coverage
