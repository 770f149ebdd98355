import Trellis.Coverage.Loop
import Trellis.Coverage.Runner
import Trellis.Proofs.Placement.Aside

/-! # Old summaries

What an old summary does to a measurement: nothing.

* `SummaryFile.StandsAt` says at which place the summary stands, or would stand. Taking it away
  succeeds, and leaves the store without that place (`SummaryFile.reset_eq`).
* `World.Like` says that two worlds differ in their journals only, and `World.Stale` that their stores
  differ at the summary only. `EndLike` says that two runs end with the same result in worlds that
  are alike.
* `World.Related` puts both together. `World.Related.loop`: the loop ends alike in such worlds, whatever
  is run and however the figure is read. -/

namespace Trellis.Coverage

variable {μ : Type}

/-! ### Where a summary stands -/

namespace SummaryFile

variable {f : SummaryFile} {s s' : Store} {x : Place}

/-- Whether a place is the one at which a summary stands: it is there, or could be put there. -/
def StandsAt (f : SummaryFile) (s : Store) (x : Place) : Prop :=
  ∃ l, s.locate false f.path = .ok l ∧ l.Takes x

/-- A summary that is there is a file. -/
theorem StandsAt.file_of_get? (h : f.StandsAt s x) {e : Entry} (he : s.get? x = some e) :
    ∃ c, e = .file c := by
  obtain ⟨l, hl, htakes⟩ := h
  have hl := (Store.locate_ok_iff.mp hl).2
  cases htakes with
  | file _ c =>
      rw [hl.get?_of_at (by simp)] at he
      exact ⟨c, (Option.some.inj he).symm⟩
  | free directory name =>
      rw [hl.get?_of_free] at he
      cases he

/-- The summary is taken away, if there is one. -/
theorem reset_eq (h : f.StandsAt s x) : f.reset s = (s.erase x, .ok ()) := by
  obtain ⟨l, hl, htakes⟩ := h
  unfold reset Store.removeFile
  rw [hl]
  cases htakes with
  | file => rfl
  | free directory name =>
      rw [Store.erase_of_none (Store.locate_ok_iff.mp hl).2.get?_of_free]
      rfl

/-- The summary stands at its place after a write that left the place as it was. -/
theorem StandsAt.write (h : f.StandsAt s x) (target : Path) (text : String)
    (hx : (Placement.write s target text).1.get? x = s.get? x) :
    f.StandsAt (Placement.write s target text).1 x := by
  have hfile : ∀ e, (Placement.write s target text).1.get? x = some e → ∃ c, e = .file c := by
    rw [hx]
    exact fun e he => h.file_of_get? he
  obtain ⟨l, hl, htakes⟩ := h
  exact Store.locate_takes_of_keeps (Placement.keeps_write s target text)
    (Placement.cwd_write s target text) hl htakes hfile

end SummaryFile

/-- Whether a reset of tools takes a summary away, and nothing is remembered of it. -/
def Tools.Clears (t : Tools μ) (f : SummaryFile) : Prop :=
  ∀ s m, t.reset s m = ((f.reset s).1, m, (f.reset s).2)

theorem Tools.ofConfig_clears (c : Config.Coverage) (root : Path) :
    (Tools.ofConfig c root).Clears (.ofConfig c root) := fun _ _ => rfl

/-! ### Worlds that are alike -/

/-- Whether two worlds are alike: only their journals may differ. -/
structure World.Like (w w' : World μ) : Prop where
  /-- The stores are the same. -/
  store_eq : w'.store = w.store
  /-- The tools remember the same. -/
  memory_eq : w'.memory = w.memory

/-- Whether two runs end alike: with the same result, in worlds that are alike. -/
structure EndLike {α : Type} (a b : World μ × α) : Prop where
  /-- The worlds are alike. -/
  like : a.1.Like b.1
  /-- The result is the same. -/
  result_eq : b.2 = a.2

section like
variable {w w' : World μ} {t : Tools μ} {source test target : Path} {text : String}

namespace World.Like

/-- The same result in the worlds as they are. -/
theorem endLike {α : Type} (h : w.Like w') (r : α) : EndLike (w, r) (w', r) := ⟨h, rfl⟩

theorem note (h : w.Like w') (a : Act) : (w.note a).Like (w'.note a) := ⟨h.store_eq, h.memory_eq⟩

/-- A tool does the same. -/
theorem act {ε α : Type} (h : w.Like w') (a : Act) (tool : Store → μ → Store × μ × Except ε α) :
    EndLike (w.act a tool) (w'.act a tool) := by
  unfold World.act
  rw [h.store_eq, h.memory_eq]
  exact ⟨⟨rfl, rfl⟩, rfl⟩

/-- The same is written. -/
theorem write (h : w.Like w') (target : Path) (text : String) :
    EndLike (w.write target text) (w'.write target text) := by
  unfold World.write
  rw [h.store_eq, h.memory_eq]
  split
  · exact ⟨⟨rfl, rfl⟩, rfl⟩
  · exact ⟨⟨rfl, rfl⟩, rfl⟩

end World.Like

theorem EndLike.exists_eq {α : Type} {a b : World μ × α} (h : EndLike a b) :
    ∃ w w' r, a = (w, r) ∧ b = (w', r) ∧ w.Like w' :=
  ⟨a.1, b.1, a.2, rfl, Prod.ext rfl h.result_eq, h.like⟩

/-- What a measurement gives depends on what the reset leaves. -/
theorem Tools.figure_of_reset (h : EndLike (w.act .reset t.reset) (w'.act .reset t.reset)) :
    EndLike (t.figure test source w) (t.figure test source w') := by
  obtain ⟨w₁, w₁', r, hreset, hreset', hlike⟩ := h.exists_eq
  unfold figure
  rw [hreset, hreset']
  cases r with
  | error e => exact hlike.endLike _
  | ok u =>
      obtain ⟨w₂, w₂', r, hrun, hrun', hlike⟩ :=
        (hlike.act (.ran test source) (t.run test source)).exists_eq
      dsimp only
      rw [hrun, hrun']
      cases r with
      | error e => exact hlike.endLike _
      | ok u =>
          obtain ⟨w₃, w₃', r, hread, hread', hlike⟩ :=
            (hlike.act (.measured source) (t.measure source)).exists_eq
          dsimp only
          rw [hread, hread']
          cases r with
          | error e => exact hlike.endLike _
          | ok y => exact hlike.endLike _

/-- A measurement gives the same. -/
theorem World.Like.figure (h : w.Like w') (t : Tools μ) (test source : Path) :
    EndLike (t.figure test source w) (t.figure test source w') :=
  t.figure_of_reset (h.act .reset t.reset)

/-- The second measurement is reported alike. -/
theorem World.Like.refine (h : w.Like w') (t : Tools μ) (test source : Path)
    (first : Decimal.Binary) :
    EndLike (t.refine test source first w) (t.refine test source first w') := by
  obtain ⟨w₁, w₁', r, hfigure, hfigure', hlike⟩ := (h.figure t test source).exists_eq
  unfold Tools.refine
  rw [hfigure, hfigure']
  cases r with
  | ok y => exact hlike.endLike _
  | error e => exact hlike.endLike _

/-- What the loop reports depends on what the first measurement gives. -/
theorem Tools.loop_of_figure (enriched : String)
    (h : EndLike (t.figure test source w) (t.figure test source w')) :
    EndLike (t.loop source test enriched w) (t.loop source test enriched w') := by
  obtain ⟨w₁, w₁', r, hfigure, hfigure', hlike⟩ := h.exists_eq
  unfold loop
  rw [hfigure, hfigure']
  cases r with
  | error e => exact hlike.endLike _
  | ok first =>
      dsimp only
      split
      · exact hlike.endLike _
      · obtain ⟨w₂, w₂', r, hwrite, hwrite', hlike⟩ :=
          ((hlike.note .enriched).write test enriched).exists_eq
        rw [hwrite, hwrite']
        cases r with
        | error e => exact hlike.endLike _
        | ok p => exact hlike.refine t test source first

/-- The loop reports the same. -/
theorem World.Like.loop (h : w.Like w') (t : Tools μ) (source test : Path) (enriched : String) :
    EndLike (t.loop source test enriched w) (t.loop source test enriched w') :=
  t.loop_of_figure enriched (h.figure t test source)

end like

/-! ### Worlds that differ at the summary -/

/-- Whether two worlds differ at a summary only, as far as their stores are concerned. -/
structure World.Stale (f : SummaryFile) (x : Place) (w w' : World μ) : Prop where
  /-- The stores are the same but for one place. -/
  same : w.store.SameBut x w'.store
  /-- The summary stands there in the first. -/
  stands_left : f.StandsAt w.store x
  /-- The summary stands there in the second. -/
  stands_right : f.StandsAt w'.store x
  /-- The tools remember the same. -/
  memory_eq : w'.memory = w.memory

namespace World.Stale

variable {f : SummaryFile} {x : Place} {w w' : World μ} {t : Tools μ}

/-- A reset makes them alike. -/
theorem reset (h : Stale f x w w') (ht : t.Clears f) :
    EndLike (w.act .reset t.reset) (w'.act .reset t.reset) := by
  have hleft : w.act .reset t.reset =
      (⟨w.store.erase x, w.memory, w.acts ++ [.reset]⟩, .ok ()) := by
    rw [World.act, ht, SummaryFile.reset_eq h.stands_left]
  have hright : w'.act .reset t.reset =
      (⟨w'.store.erase x, w'.memory, w'.acts ++ [.reset]⟩, .ok ()) := by
    rw [World.act, ht, SummaryFile.reset_eq h.stands_right]
  rw [hleft, hright]
  exact ⟨⟨h.same, h.memory_eq⟩, rfl⟩

/-- A measurement gives the same, whatever summary there was. -/
theorem figure (h : Stale f x w w') (ht : t.Clears f) (test source : Path) :
    EndLike (t.figure test source w) (t.figure test source w') :=
  t.figure_of_reset (h.reset ht)

/-- The loop reports the same, whatever summary there was. -/
theorem loop (h : Stale f x w w') (ht : t.Clears f) (source test : Path) (enriched : String) :
    EndLike (t.loop source test enriched w) (t.loop source test enriched w') :=
  t.loop_of_figure enriched (h.figure ht test source)

/-- Sources that do not lead to the summary are read alike. -/
theorem readsAlike (h : Stale f x w w') {p : Path}
    (hp : ∀ l, w.store.locate true p = .ok l → ¬ l.Takes x) : w.store.ReadsAlike w'.store p :=
  h.same.readsAlike (fun _ he => h.stands_left.file_of_get? he)
    (fun _ he => h.stands_right.file_of_get? he) hp

/-- A write of a target aside of the summary ends alike. -/
theorem write (h : Stale f x w w') {target : Path} (hx : Placement.Aside w.store target x)
    (htarget : target.text ≠ "") (text : String) :
    (w'.write target text).2 = (w.write target text).2 ∧
      Stale f x (w.write target text).1 (w'.write target text).1 := by
  have hwrite := hx.write h.same htarget text
  have hleft := h.stands_left.write target text hwrite.left_eq
  have hright := h.stands_right.write target text hwrite.right_eq
  unfold World.write
  cases ha : Placement.write w.store target text with
  | mk s₁ r =>
      cases hb : Placement.write w'.store target text with
      | mk s₁' r' =>
          rw [ha, hb] at hwrite
          rw [ha] at hleft
          rw [hb] at hright
          obtain rfl : r' = r := hwrite.result_eq
          cases r' with
          | ok p => exact ⟨rfl, hwrite.same, hleft, hright, h.memory_eq⟩
          | error e => exact ⟨rfl, hwrite.same, hleft, hright, h.memory_eq⟩

end World.Stale

/-- Whether two worlds are alike, or differ at a summary only. -/
inductive World.Related (f : SummaryFile) (x : Place) (w w' : World μ) : Prop
  | like : w.Like w' → Related f x w w'
  | stale : Stale f x w w' → Related f x w w'

namespace World.Related

variable {f : SummaryFile} {x : Place} {w w' : World μ} {t : Tools μ} {target : Path}

/-- The stores are the same but for the place of the summary. -/
theorem same (h : Related f x w w') : w.store.SameBut x w'.store := by
  cases h with
  | like h => exact congrArg (Store.erase · x) h.store_eq
  | stale h => exact h.same

theorem memory_eq (h : Related f x w w') : w'.memory = w.memory := by
  cases h with
  | like h => exact h.memory_eq
  | stale h => exact h.memory_eq

/-- Paths that do not lead to the summary are read alike. -/
theorem readsAlike (h : Related f x w w') {p : Path}
    (hp : ∀ l, w.store.locate true p = .ok l → ¬ l.Takes x) : w.store.ReadsAlike w'.store p := by
  cases h with
  | like h =>
      rw [h.store_eq]
      exact ⟨rfl, fun _ => rfl⟩
  | stale h => exact h.readsAlike hp

/-- A write of a target aside of the summary ends alike. -/
theorem write (h : Related f x w w') (hx : Placement.Aside w.store target x)
    (htarget : target.text ≠ "") (text : String) :
    (w'.write target text).2 = (w.write target text).2 ∧
      Related f x (w.write target text).1 (w'.write target text).1 := by
  cases h with
  | like h =>
      have hwrite := h.write target text
      exact ⟨hwrite.result_eq, .like hwrite.like⟩
  | stale h =>
      obtain ⟨hresult, hstale⟩ := h.write hx htarget text
      exact ⟨hresult, .stale hstale⟩

/-- The loop reports the same, whatever summary there was, and makes the worlds alike. -/
theorem loop (h : Related f x w w') (ht : t.Clears f) (source test : Path) (enriched : String) :
    EndLike (t.loop source test enriched w) (t.loop source test enriched w') := by
  cases h with
  | like h => exact h.loop t source test enriched
  | stale h => exact h.loop ht source test enriched

end World.Related

end Trellis.Coverage
