import Trellis.Coverage.Loop

/-! # Traces of runs

What a run did, step by step, with what came of each step.

* An `Event` is an act together with its result; failed writes are events too.
* A `Step` is an event between two worlds. `Step.Valid` says that the world after it is what the
  tools, or the write, make of the world before it.
* `Trace tools w steps w'` says that valid steps lead from `w` to `w'`, one from the other. The
  journal of a world lists the acts of the trace in order (`Trace.acts_eq`). -/

namespace Trellis.Coverage

open Decimal (Binary)

variable {μ : Type}

/-- Something that a run did, with what came of it. -/
inductive Event where
  /-- It had old readings taken away. -/
  | reset (result : Except CoverageFault Unit)
  /-- It had a test run for a source. -/
  | ran (test source : Path) (result : Except RunFault Unit)
  /-- It had the figure of a source read. -/
  | measured (source : Path) (result : Except CoverageFault Binary)
  /-- It asked for the enriched module. -/
  | enriched
  /-- It tried to write a text at a target. -/
  | wrote (target : Path) (text : String) (result : Except WriteFault Placement)

namespace Event

/-- Whether the enriched module was asked for. -/
def isEnriched : Event → Bool
  | enriched => true
  | _ => false

/-- Whether a test was run. -/
def isRun : Event → Bool
  | ran .. => true
  | _ => false

/-- Whether a tool was at work. -/
def isTool : Event → Bool
  | reset _ | ran .. | measured .. => true
  | _ => false

/-- The stage of the loop to which an event belongs. -/
def stage? : Event → Option Stage
  | reset _ | measured .. => some .coverage
  | ran .. => some .runner
  | enriched => none
  | wrote .. => some .write

/-- The failure of an event that failed. -/
def failure? : Event → Option Failure
  | reset (.error e) => some (.ofCoverage e)
  | ran _ _ (.error e) => some (.ofRun e)
  | measured _ (.error e) => some (.ofCoverage e)
  | wrote _ _ (.error e) => some (.ofWrite e)
  | _ => none

theorem stage_of_failure? {e : Event} {f : Failure} (h : e.failure? = some f) :
    e.stage? = some f.stage := by
  unfold failure? at h
  split at h <;> cases h <;> rfl

end Event

/-- An event with the worlds before and after it. -/
structure Step (μ : Type) where
  /-- The world before the event. -/
  before : World μ
  /-- The event. -/
  event : Event
  /-- The world after the event. -/
  after : World μ

namespace Step

/-- Whether the world after the event is what the tools, or a write, make of the one before it. -/
def Valid (tools : Option (Tools μ)) (s : Step μ) : Prop :=
  match s.event with
  | .reset r => ∃ t ∈ tools, s.before.act .reset t.reset = (s.after, r)
  | .ran test source r => ∃ t ∈ tools, s.before.act (.ran test source) (t.run test source) = (s.after, r)
  | .measured source r => ∃ t ∈ tools, s.before.act (.measured source) (t.measure source) = (s.after, r)
  | .enriched => s.before.note .enriched = s.after
  | .wrote target text r => s.before.write target text = (s.after, r)

/-- The act that is noted for a step; a failed write is not noted. -/
def act? (s : Step μ) : Option Act :=
  match s.event with
  | .reset _ => some .reset
  | .ran test source _ => some (.ran test source)
  | .measured source _ => some (.measured source)
  | .enriched => some .enriched
  | .wrote target text (.ok _) => some (.wrote target text s.before.store)
  | .wrote _ _ (.error _) => none

theorem acts_of_act {w w' : World μ} {ε α : Type} {a : Act} {f : Store → μ → Store × μ × Except ε α}
    {r : Except ε α} (h : w.act a f = (w', r)) : w'.acts = w.acts ++ [a] := by
  obtain ⟨rfl, rfl⟩ := Prod.mk.inj h
  rfl

theorem acts_of_write {w w' : World μ} {target : Path} {text : String}
    {r : Except WriteFault Placement} (h : w.write target text = (w', r)) :
    w'.acts = w.acts ++ (act? ⟨w, .wrote target text r, w'⟩).toList := by
  unfold World.write at h
  split at h
  · obtain ⟨rfl, rfl⟩ := Prod.mk.inj h
    rfl
  · obtain ⟨rfl, rfl⟩ := Prod.mk.inj h
    simp [act?]

theorem Valid.acts_eq {tools : Option (Tools μ)} {s : Step μ} (h : s.Valid tools) :
    s.after.acts = s.before.acts ++ s.act?.toList := by
  obtain ⟨w, e, w'⟩ := s
  cases e with
  | reset r =>
      obtain ⟨t, _, h⟩ := h
      exact acts_of_act h
  | ran test source r =>
      obtain ⟨t, _, h⟩ := h
      exact acts_of_act h
  | measured source r =>
      obtain ⟨t, _, h⟩ := h
      exact acts_of_act h
  | enriched =>
      have h : w.note .enriched = w' := h
      rw [← h]
      rfl
  | wrote target text r => exact acts_of_write h

end Step

/-- Valid steps that lead from one world to another. -/
def Trace (tools : Option (Tools μ)) : World μ → List (Step μ) → World μ → Prop
  | w, [], w' => w = w'
  | w, s :: steps, w' => s.before = w ∧ s.Valid tools ∧ Trace tools s.after steps w'

namespace Trace

variable {tools : Option (Tools μ)}

theorem nil (w : World μ) : Trace tools w [] w := rfl

theorem single {s : Step μ} (h : s.Valid tools) : Trace tools s.before [s] s.after := ⟨rfl, h, rfl⟩

theorem append {w₁ w₂ w₃ : World μ} {ss ts : List (Step μ)} (h₁ : Trace tools w₁ ss w₂)
    (h₂ : Trace tools w₂ ts w₃) : Trace tools w₁ (ss ++ ts) w₃ := by
  induction ss generalizing w₁ with
  | nil =>
      have e : w₁ = w₂ := h₁
      rw [e]
      exact h₂
  | cons s ss ih =>
      obtain ⟨hb, hv, hs⟩ := h₁
      exact ⟨hb, hv, ih hs⟩

theorem valid {w w' : World μ} {steps : List (Step μ)} (h : Trace tools w steps w') :
    ∀ s ∈ steps, s.Valid tools := by
  induction steps generalizing w with
  | nil => simp
  | cons s ss ih =>
      obtain ⟨_, hv, hs⟩ := h
      intro s' hs'
      rcases List.mem_cons.mp hs' with rfl | hs'
      · exact hv
      · exact ih hs s' hs'

/-- The journal lists the acts of a trace. -/
theorem acts_eq {w w' : World μ} {steps : List (Step μ)} (h : Trace tools w steps w') :
    w'.acts = w.acts ++ steps.filterMap Step.act? := by
  induction steps generalizing w with
  | nil =>
      have e : w = w' := h
      simp [e]
  | cons s ss ih =>
      obtain ⟨hb, hv, hs⟩ := h
      have e := hv.acts_eq
      rw [hb] at e
      rw [ih hs, e, List.append_assoc, List.filterMap_cons]
      cases s.act? <;> simp

end Trace

end Trellis.Coverage
