import Trellis.Proofs.Batch.Isolation
import Trellis.Proofs.Batch.Turns

/-! # Running again

What a second run does on the result of a first one, when nothing is measured.

* `Batch.Repeats` says that it reports the same, but that every module is there already, and leaves
  everything as it was.
* `Batch.Untargeted` says that no module is put in the place of a source or of a module that is
  imported. This is not enough. `Batch.Repeatable` adds that no path comes to be a file, or stops to
  be one, after it was looked at, and that no test written by hand is uncovered.
* `Batch.Tracks` is what the second run keeps to, turn by turn: it stands where the first run stood at
  the places that it has written again, and where the first run ended at all others.
  `Batch.repeats_of_repeatable` derives that a repeatable run repeats.
* `Detour` and `Uncovered` are runs over sources that are no targets and that do not repeat. -/

namespace Trellis

variable {μ : Type}

namespace Batch

open Coverage

/-! ### Reports -/

/-- An outcome, with the module there already. -/
def Outcome.regenerated : Outcome → Outcome
  | .generated target names pass _ feedback => .generated target names pass .regenerate feedback
  | o => o

/-- A report, with the module there already. -/
def FileReport.regenerated (f : FileReport) : FileReport := ⟨f.source, f.outcome.regenerated⟩

/-- Whether a second run on the result of a first one reports the same, but that every module is
there already, and leaves everything as it was. -/
def Repeats (b : Batch μ) (g : Progress μ) (paths : List Path) : Prop :=
  ∀ g' : Progress μ, g'.world.store = (b.run g paths).1.world.store →
    (b.run g' paths).2.files = (b.run g paths).2.files.map FileReport.regenerated ∧
      (b.run g' paths).1.world.store.cwd = g'.world.store.cwd ∧
      ∀ x, (b.run g' paths).1.world.store.get? x = g'.world.store.get? x

/-! ### Runs that can be repeated -/

/-- Whether a path, if it leads to a file, does not lead to one of some places. -/
def Avoids (filled : Place → Prop) (s : Store) (q : Path) : Prop :=
  ∀ x c, s.locate true q = .ok (.at x (.file c)) → ¬ filled x

/-- Whether no module is put in the place of a source or of a module that is imported. -/
def Untargeted (b : Batch μ) (g : Progress μ) (paths : List Path) : Prop :=
  b.Always (fun s p => ∀ q, s.LooksAt p q → Avoids (b.Fills g paths) s q) g paths

/-- Whether every path that is looked at is a file exactly if it is one in another store. -/
def LooksAhead (b : Batch μ) (final : Store) (g : Progress μ) (paths : List Path) : Prop :=
  b.Always (fun s p => ∀ q, s.LooksAt p q → final.isFile q = s.isFile q) g paths

/-- Whether a run comes across nothing that it makes itself. -/
structure Repeatable (b : Batch μ) (g : Progress μ) (paths : List Path) : Prop where
  /-- No write fails. -/
  writes : b.WritesAll g paths
  /-- No module is put in the place of a source or of a module that is imported. -/
  untargeted : b.Untargeted g paths
  /-- Every path that is looked at is a file exactly if it is one in the end. -/
  looksAhead : b.LooksAhead (b.run g paths).1.world.store g paths
  /-- No test written by hand is uncovered. -/
  uncoversNone : b.UncoversNone g paths

/-! ### One turn of the second run -/

/-- How the store of the second run stands to that of the first, when a turn comes: at the places that
were written again the two hold the same, and all other places are as the first run leaves them. -/
structure Tracks (done : Place → Prop) (s t final : Store) : Prop where
  /-- Relative paths are taken from the same directory. -/
  cwd_eq : t.cwd = final.cwd
  /-- What was written again. -/
  done_eq : ∀ x, done x → t.get? x = s.get? x
  /-- It is generated. -/
  generated : ∀ x, done x → ∃ e, s.get? x = some e ∧ e.isKept = false
  /-- What was not. -/
  rest_eq : ∀ x, ¬ done x → t.get? x = final.get? x

section turn
variable {b : Batch μ} {g g' : Progress μ} {done filled : Place → Prop} {s s' t final : Store}
  {p : Path} {o : Outcome}

namespace Tracks

/-- The second run renews the result of the first. -/
theorem renewed (h : Tracks done s t final) (hs : s.Renewed final) : final.Renewed t := by
  refine ⟨h.cwd_eq, fun x e he => ?_⟩
  by_cases hx : done x
  · obtain ⟨e₀, he₀, hk₀⟩ := h.generated x hx
    obtain ⟨e₁, he₁, hk₁⟩ := hs.generated ⟨e₀, he₀, hk₀⟩
    rw [he] at he₁
    cases he₁
    exact .inr ⟨hk₁, e₀, (h.done_eq x hx).trans he₀, hk₀⟩
  · exact .inl ((h.rest_eq x hx).trans he)

/-- The result of the first run has nothing less than the second. -/
theorem retains_final (h : Tracks done s t final) (hs : s.Renewed final) : t.Retains final := by
  intro x e he
  by_cases hx : done x
  · have hfinal := hs.generated (h.generated x hx)
    rw [h.done_eq x hx] at he
    obtain ⟨e₀, he₀, hk₀⟩ := h.generated x hx
    rw [he] at he₀
    cases he₀
    obtain ⟨text, rfl, _⟩ := Store.exists_text_of_isKept hk₀
    obtain ⟨e₁, he₁, hk₁⟩ := hfinal
    obtain ⟨text₁, rfl, _⟩ := Store.exists_text_of_isKept hk₁
    exact .inr ⟨_, _, rfl, he₁⟩
  · exact .inl ((h.rest_eq x hx).symm.trans he)

/-- What stays during the first run is there in the second. -/
theorem get?_of_final (h : Tracks done s t final) {x : Place} {e : Entry}
    (he : s.get? x = some e) (hfinal : final.get? x = some e) : t.get? x = some e := by
  by_cases hx : done x
  · exact (h.done_eq x hx).trans he
  · exact (h.rest_eq x hx).trans hfinal

/-- A path that is looked at is read as in the first run. -/
theorem readsAlike (h : Tracks done s t final) (hs : s.Renewed final)
    (hstay : ∀ x e, ¬ filled x → s.get? x = some e → final.get? x = some e) {q : Path}
    (havoids : Avoids filled s q) (hfile : final.isFile q = s.isFile q) : s.ReadsAlike t q := by
  constructor
  · rw [← hfile, Bool.eq_iff_iff]
    exact ⟨(h.retains_final hs).isFile h.cwd_eq.symm, (h.renewed hs).retains.isFile h.cwd_eq⟩
  · intro hq
    obtain ⟨x, c, hl⟩ := Store.isFile_iff.mp hq
    have hget := (Store.locate_ok_iff.mp hl).2.get?_of_at (by simp)
    have ht := h.get?_of_final hget (hstay x _ (havoids x c hl) hget)
    have hst := hs.trans (h.renewed hs)
    rw [Store.read_ok_iff.mpr ⟨x, hl⟩,
      Store.read_ok_iff.mpr ⟨x, hst.retains.locate_file hst.cwd_eq hl (.file x c) ht⟩]

/-- A target that must be left alone must be left alone in the second run. -/
theorem check_keep (h : Tracks done s t final) (hs : s.Renewed final) {target : Path}
    (hc : Placement.check s target = .ok .keep) : Placement.check t target = .ok .keep := by
  have hst := hs.trans (h.renewed hs)
  unfold Placement.check at hc
  split at hc
  · rename_i hdirectory
    obtain ⟨x, hl⟩ := Store.isDirectory_iff.mp hdirectory
    exact Placement.check_of_directory (hst.retains.locate_directory hst.cwd_eq hl)
  · split at hc
    · rename_i c hread
      obtain ⟨x, hl⟩ := Store.read_ok_iff.mp hread
      have hk := Placement.ofContent_eq_keep_iff.mp (Except.ok.inj hc)
      have ht := hst.spares _ _ ((Store.locate_ok_iff.mp hl).2.get?_of_at (by simp)) hk
      have hread' := Store.read_ok_iff.mpr
        ⟨x, hst.retains.locate_file hst.cwd_eq hl (.file x c) ht⟩
      rw [Placement.check_of_read_ok hread', Except.ok.inj hc]
    · cases hc
    · cases hc

/-- Where the first run put a module, the second run finds it. -/
theorem lands (h : Tracks done s t final) (hs : s.Renewed final) {x : Place} {target : Path}
    {text : String} (hs' : ((Placement.room s target).put x (.file (.text text))).Renewed final)
    (hx : Placement.Lands s target x) (hm : Placement.carriesMarker text = true) :
    Placement.check t target = .ok .regenerate ∧ Placement.room t target = t ∧
      Placement.Lands t target x := by
  obtain ⟨_, l, hl, htakes⟩ := hx
  have hne : x ≠ [] := (Store.locate_ok_iff.mp hl).2.ne_nil htakes
  have hput := Store.locate_put hl htakes (.text text)
  have hfinal := hs'.generated ⟨_, Store.get?_put_self hne _, Store.isKept_text hm⟩
  -- What stands there now is the module of this source or of another one.
  obtain ⟨e, he, hk⟩ : ∃ e, t.get? x = some e ∧ e.isKept = false := by
    by_cases hd : done x
    · obtain ⟨e, he, hk⟩ := h.generated x hd
      exact ⟨e, (h.done_eq x hd).trans he, hk⟩
    · obtain ⟨e, he, hk⟩ := hfinal
      exact ⟨e, (h.rest_eq x hd).trans he, hk⟩
  obtain ⟨text', rfl, hm'⟩ := Store.exists_text_of_isKept hk
  have hst := hs'.trans (h.renewed hs)
  have hl' := hst.retains.locate_file hst.cwd_eq hput (.file x _) he
  exact ⟨Placement.check_of_read (Store.read_ok_iff.mpr ⟨x, hl'⟩) hm',
    Placement.room_of_locate hl', Placement.lands_of_locate hl' (.file x _)⟩

/-- A module is put where the first run put it. -/
theorem put (h : Tracks done s t final) {x : Place} {target : Path} {text : String}
    (hx : Placement.Lands s target x) (hm : Placement.carriesMarker text = true) :
    Tracks (fun y => y = x ∨ done y) ((Placement.room s target).put x (.file (.text text)))
      (t.put x (.file (.text text))) final := by
  have hne : x ≠ [] := by
    obtain ⟨_, l, hl, htakes⟩ := hx
    exact (Store.locate_ok_iff.mp hl).2.ne_nil htakes
  have hext := Placement.room_extends s target
  have hgenerated : ∀ y, y = x ∨ done y → ∃ e,
      ((Placement.room s target).put x (.file (.text text))).get? y = some e ∧
        e.isKept = false := by
    intro y hy
    by_cases hyx : y = x
    · subst hyx
      exact ⟨_, Store.get?_put_self hne _, Store.isKept_text hm⟩
    · obtain ⟨e, he, hk⟩ := h.generated y (hy.resolve_left hyx)
      rw [Store.get?_put_of_ne hyx]
      exact ⟨e, hext.get?_of_some he, hk⟩
  refine ⟨(Store.cwd_put t x _).trans h.cwd_eq, fun y hy => ?_, hgenerated, fun y hy => ?_⟩
  · by_cases hyx : y = x
    · subst hyx
      rw [Store.get?_put_self hne, Store.get?_put_self hne]
    · obtain ⟨e, he, _⟩ := h.generated y (hy.resolve_left hyx)
      rw [Store.get?_put_of_ne hyx, Store.get?_put_of_ne hyx, h.done_eq y (hy.resolve_left hyx),
        hext.get?_of_some he, he]
  · rw [not_or] at hy
    rw [Store.get?_put_of_ne hy.1]
    exact h.rest_eq y hy.2

end Tracks

/-- The turn of a source comes to the same again, with its module there already. -/
theorem process_again (ht : b.tools = none) (h : Tracks done g.world.store g'.world.store final)
    (turn : b.Turn g.world.store p s' o) (hs : g.world.store.Renewed final)
    (hs' : s'.Renewed final) (sees : g.world.store.SeesAlike g'.world.store p) :
    (b.process g' p).2 = o.regenerated ∧
      ∃ done', Tracks done' s' (b.process g' p).1.world.store final ∧
        ∀ x, done' x → done x ∨ b.LandsAt g.world.store p x := by
  have hload := sees.loadComponent_eq
  cases turn with
  | unreadable he =>
      obtain ⟨hw, ho⟩ := process_of_unreadable (b := b) (hload.trans he)
      rw [hw, ho]
      exact ⟨rfl, done, h, fun x hx => .inl hx⟩
  | noComponents hload' hnil =>
      obtain ⟨hw, ho⟩ := process_of_nil (b := b) (hload.trans hload')
        ((sees.components_eq hload').trans hnil)
      rw [hw, ho]
      exact ⟨rfl, done, h, fun x hx => .inl hx⟩
  | @manual source hload' hne hc =>
      have hcomponents : componentsIn g'.world.store source ≠ [] := by
        unfold componentsIn
        rw [sees.components_eq hload']
        exact hne
      obtain ⟨hw, ho⟩ := process_of_components (b := b) (hload.trans hload') hcomponents
      rw [hw, ho, place_of_keep (h.check_keep hs hc)]
      exact ⟨rfl, done, h, fun x hx => .inl hx⟩
  | @generated source q x hload' hne hc hq hx =>
      have hm := b.carriesMarker_suite p source (componentsIn g.world.store source) b.firstPass
      obtain ⟨hcheck, hroom, hlands⟩ := h.lands hs hs' hx hm
      have hcomponents : componentsIn g'.world.store source = componentsIn g.world.store source :=
        sees.components_eq hload'
      obtain ⟨hw, ho⟩ := process_of_lands (b := b) ht (hload.trans hload') (hcomponents ▸ hne)
        hlands hcheck rfl
      rw [hroom, hcomponents] at hw
      rw [hcomponents] at ho
      rw [hw, ho]
      refine ⟨rfl, fun y => y = x ∨ done y, ?_, ?_⟩
      · exact h.put hx hm
      · rintro y (rfl | hy)
        · exact .inr ⟨⟨source, hload', hne⟩, hx⟩
        · exact .inl hy

end turn

/-! ### The second run -/

section run
variable {b : Batch μ} {g g' : Progress μ} {paths : List Path} {done filled : Place → Prop}
  {final : Store}

/-- Turn by turn, the second run comes to the same. -/
theorem run_again (ht : b.tools = none) (hw : b.WritesAll g paths) (hu : b.UncoversNone g paths)
    (hfinal : (b.run g paths).1.world.store = final)
    (havoid : b.Always (fun s p => ∀ q, s.LooksAt p q → Avoids filled s q) g paths)
    (hahead : b.LooksAhead final g paths) (hfilled : ∀ x, b.Fills g paths x → filled x)
    (h : Tracks done g.world.store g'.world.store final) (hdone : ∀ x, done x → filled x) :
    (b.run g' paths).2.files = (b.run g paths).2.files.map FileReport.regenerated ∧
      ∃ done', Tracks done' final (b.run g' paths).1.world.store final := by
  induction paths generalizing g g' done with
  | nil =>
      refine ⟨rfl, done, ?_⟩
      rw [← hfinal] at h ⊢
      exact h
  | cons p ps ih =>
      have hstay : ∀ x e, ¬ filled x → g.world.store.get? x = some e → final.get? x = some e := by
        intro x e hx he
        rw [← hfinal]
        exact run_get?_of_not_fills ht hw (fun hx' => hx (hfilled x hx')) he
      have hs := run_renewed ht hw hu
      rw [hfinal] at hs
      obtain ⟨hwp, hwps⟩ := writesAll_cons_iff.mp hw
      obtain ⟨hup, hups⟩ := always_cons_iff.mp hu
      obtain ⟨havp, havps⟩ := always_cons_iff.mp havoid
      obtain ⟨hap, haps⟩ := always_cons_iff.mp hahead
      rw [(run_cons b g p ps).1] at hfinal
      have hs' := run_renewed ht hwps hups
      rw [hfinal] at hs'
      have turn := process_turn ht hwp
      obtain ⟨ho, done', h', hdone'⟩ := process_again ht h turn hs hs' fun q hq =>
        h.readsAlike hs hstay (havp q hq) (hap q hq)
      obtain ⟨hfiles, htracks⟩ := ih hwps hups hfinal havps haps
        (fun x hx => hfilled x (fills_cons_iff.mpr (.inr hx))) h' fun x hx => by
          rcases hdone' x hx with hx | hx
          · exact hdone x hx
          · exact hfilled x (fills_cons_iff.mpr (.inl hx))
      rw [(run_cons b g' p ps).1, (run_cons b g' p ps).2, (run_cons b g p ps).2, ho, hfiles]
      exact ⟨rfl, htracks⟩

/-- A run that comes across nothing that it makes itself repeats. -/
theorem repeats_of_repeatable (b : Batch μ) (g : Progress μ) (paths : List Path) (ht : b.tools = none)
    (h : b.Repeatable g paths) : b.Repeats g paths := by
  intro g' hg'
  have hstart : Tracks (fun _ => False) g.world.store g'.world.store (b.run g paths).1.world.store :=
    ⟨by rw [hg'], nofun, nofun, fun x _ => by rw [hg']⟩
  obtain ⟨hfiles, done, htracks⟩ := run_again ht h.writes h.uncoversNone rfl h.untargeted
    h.looksAhead (fun x hx => hx) hstart nofun
  refine ⟨hfiles, ?_, fun x => ?_⟩
  · rw [htracks.cwd_eq, hg']
  · rw [hg']
    by_cases hx : done x
    · exact htracks.done_eq x hx
    · exact htracks.rest_eq x hx

end run

/-! ### Sources that are kept apart -/

section separate
variable {b : Batch μ} {g : Progress μ} {paths : List Path} {t : Store} {p : Path} {x : Place}

/-- A source has components after others only if it has components alone. -/
theorem Separate.hasComponents (sep : b.Separate g.world.store paths)
    (hg : g.world.store.Grown (b.plan g.world.store paths) t) (hp : p ∈ paths)
    (h : HasComponents t p) : HasComponents g.world.store p := by
  have sees := sep.seesAlike hg hp
  obtain ⟨source, hs, hne⟩ := h
  rw [sees.loadComponent_eq] at hs
  unfold componentsIn at hne
  rw [sees.components_eq hs] at hne
  exact ⟨source, hs, hne⟩

/-- A module comes to stand after others only where it comes to stand alone. -/
theorem Separate.landsAt (sep : b.Separate g.world.store paths)
    (hg : g.world.store.Grown (b.plan g.world.store paths) t) (hp : p ∈ paths)
    (h : b.LandsAt t p x) : b.LandsAt g.world.store p x := by
  have hhas := sep.hasComponents hg hp h.1
  exact ⟨hhas, (sep.steady p hp hhas).lands_of_lands hg h.2⟩

/-- Before the turn of a source, the store has grown as planned. -/
theorem Separate.before (sep : b.Separate g.world.store paths) (ht : b.tools = none)
    {before after : List Path} (heq : paths = before ++ p :: after) :
    p ∈ paths ∧ (∀ q ∈ before, b.Apart g.world.store q p) ∧
      b.After g paths before (b.run g before).1.world.store := by
  have hmem : ∀ q ∈ before, q ∈ paths := fun q hq => heq ▸ List.mem_append_left _ hq
  have hpair := sep.targets
  rw [heq, List.pairwise_append] at hpair
  exact ⟨heq ▸ List.mem_append_right _ List.mem_cons_self,
    fun q hq => hpair.2.2 q hq p List.mem_cons_self, (run_after sep ht hmem hpair.1).2⟩

/-- Where a module comes to stand was planned. -/
theorem Separate.filled (sep : b.Separate g.world.store paths) (ht : b.tools = none)
    (hx : b.Fills g paths x) : (b.plan g.world.store paths).filled x := by
  obtain ⟨before, p, after, heq, hx⟩ := hx
  obtain ⟨hp, _, hafter⟩ := sep.before ht heq
  exact ⟨p, hp, sep.landsAt hafter.grown hp hx⟩

/-- What is looked at for a source is settled. -/
theorem Separate.settled (sep : b.Separate g.world.store paths)
    (hg : g.world.store.Grown (b.plan g.world.store paths) t) (hp : p ∈ paths) {q : Path}
    (hq : t.LooksAt p q) : g.world.store.Settled (b.plan g.world.store paths) q := by
  rcases (sep.seesAlike hg hp).looksAt hq with
    rfl | ⟨source, hs, m, hm, name, specifier, imported, himport, hq⟩
  · exact sep.sources q hp
  · exact sep.imports p hp source hs m hm name specifier imported himport q hq

/-- A write at a steady target uncovers nothing, if it is done and no module was put there before. -/
theorem not_uncovers_of_steady (ht : b.tools = none) {g' : Progress μ} {plan : Store.Plan}
    {s : Store} (steady : Placement.Steady plan s (b.policy.targetPath p))
    (hg : s.Grown plan g'.world.store)
    (hold : Placement.Untouched s g'.world.store (b.policy.targetPath p))
    (hw : (b.process g' p).2.IsWritten) (hhas : HasComponents g'.world.store p) :
    ¬ Placement.Uncovers g'.world.store (b.policy.targetPath p) := by
  rintro ⟨hread, c, hc, hk⟩
  have hcheck := Placement.check_of_missing hread
  -- Nothing is there, so the module was written, and lands where the hidden file is.
  obtain ⟨y, hy⟩ : ∃ y, Placement.Lands g'.world.store (b.policy.targetPath p) y := by
    obtain ⟨source, hs, hne⟩ := hhas
    have turn := process_turn ht hw
    generalize (b.process g' p).1.world.store = s', (b.process g' p).2 = o at turn
    cases turn with
    | unreadable he =>
        rw [hs] at he
        cases he
    | noComponents hs' hnil =>
        rw [hs] at hs'
        cases hs'
        exact absurd hnil hne
    | manual _ _ hkeep =>
        rw [hcheck] at hkeep
        cases hkeep
    | generated _ _ _ _ hy => exact ⟨_, hy⟩
  have hext := Placement.room_extends g'.world.store (b.policy.targetPath p)
  obtain ⟨z, hz⟩ := Store.read_ok_iff.mp hc
  obtain rfl : y = z := by
    obtain ⟨_, l, hl, htakes⟩ := hy
    rw [hz] at hl
    cases hl
    cases htakes
    rfl
  have hget := hext.get?_back ((Store.locate_ok_iff.mp hz).2.get?_of_at (by simp)) (by simp)
  have hs := (hold y (steady.lands_of_lands hg hy) c).mp hget
  cases steady with
  | directory x hl =>
      rw [Placement.check_of_directory (hg.retains.locate_directory hg.cwd_eq hl)] at hcheck
      cases hcheck
  | stuck err hl herr =>
      rw [Placement.check_of_stuck (hg.retains.locate_error hg.cwd_eq herr hl) herr] at hcheck
      cases hcheck
  | refused e hall =>
      have hput := (hall g'.world.store hg).2.2 ""
      rw [hy.put_eq] at hput
      cases hput
  | lands x hall hplace =>
      obtain rfl := hy.unique (hall g'.world.store hg).2
      have hl := hg.retains.locate_file hg.cwd_eq (hplace c hs) (.file y c) hget
      rw [Store.read_ok_iff.mpr ⟨y, hl⟩] at hread
      cases hread

/-- A run over sources that are kept apart comes across nothing that it makes itself. -/
theorem Separate.repeatable (sep : b.Separate g.world.store paths) (ht : b.tools = none)
    (hw : b.WritesAll g paths) : b.Repeatable g paths where
  writes := hw
  untargeted := by
    intro before p after heq q hq x c hl hx
    obtain ⟨hp, _, hafter⟩ := sep.before ht heq
    have hsettled := sep.settled hafter.grown hp hq
    have hfile := Store.isFile_iff.mpr ⟨x, c, hl⟩
    rw [hsettled.isFile_eq _ hafter.grown] at hfile
    obtain ⟨y, c', hl'⟩ := Store.isFile_iff.mp hfile
    have hy := hsettled.not_filled y c' hl'
    rw [hafter.grown.locate_file_eq hl' hy] at hl
    cases hl
    exact hy (sep.filled ht hx)
  looksAhead := by
    intro before p after heq q hq
    obtain ⟨hp, _, hafter⟩ := sep.before ht heq
    have hsettled := sep.settled hafter.grown hp hq
    have hfinal := (run_after sep ht (fun _ h => h) sep.targets).2
    rw [hsettled.isFile_eq _ hafter.grown, hsettled.isFile_eq _ hfinal.grown]
  uncoversNone := by
    intro before p after heq hhas
    obtain ⟨hp, hapart, hafter⟩ := sep.before ht heq
    have hhas' := sep.hasComponents hafter.grown hp hhas
    rw [heq] at hw
    exact not_uncovers_of_steady ht (sep.steady p hp hhas') hafter.grown
      (hafter.untouched hhas' hapart) hw.isWritten hhas

end separate

namespace Neighbors

/-- A module that is new is written. -/
theorem isWritten_of_lands {p : Path} {x : Place} (hhas : HasComponents start p)
    (hx : Placement.Lands start (batch.policy.targetPath p) x) (hnone : start.get? x = none) :
    (batch.process progress p).2.IsWritten := by
  obtain ⟨source, hs, hne⟩ := hhas
  have hcheck := Placement.check_of_missing (hx.read_of_none hnone)
  obtain ⟨_, ho⟩ := process_of_lands (b := batch) (g := progress) rfl hs hne hx hcheck rfl
  rw [ho]
  exact isWritten_placed

/-- No write fails. -/
theorem writesAll : batch.WritesAll progress paths := by
  have hfiles := (run_after (b := batch) (g := progress) separate rfl (fun _ h => h)
    separate.targets).1
  have hall : ∀ p ∈ paths, (batch.process progress p).2.IsWritten := by
    intro p hp
    rcases List.mem_cons.mp hp with rfl | hp
    · exact isWritten_of_lands (hasComponents_of_reading readings.1) lands_first rfl
    · rcases List.mem_cons.mp hp with rfl | hp
      · obtain ⟨e, he⟩ := error_of_reading readings.2.1
        rw [(process_of_unreadable (b := batch) (g := progress) he).2]
        exact isWritten_unreadable
      · obtain rfl := List.mem_singleton.mp hp
        exact isWritten_of_lands (hasComponents_of_reading readings.2.2) lands_second rfl
  intro f hf
  rw [hfiles] at hf
  obtain ⟨p, hp, rfl⟩ := List.mem_map.mp hf
  exact hall p hp

end Neighbors

/-- A run over two sources and a broken one, one of which imports a module, repeats. -/
theorem repeats_neighbors :
    Neighbors.batch.tools = none ∧ Neighbors.batch.Repeatable Neighbors.progress Neighbors.paths ∧
      Neighbors.batch.Repeats Neighbors.progress Neighbors.paths :=
  have h := Separate.repeatable (b := Neighbors.batch) (g := Neighbors.progress)
    Neighbors.separate rfl Neighbors.writesAll
  ⟨rfl, h, repeats_of_repeatable Neighbors.batch Neighbors.progress Neighbors.paths rfl h⟩

end Batch

end Trellis
