import Mathlib.Data.List.Forall2
import Mathlib.Data.List.Induction
import Trellis.Proofs.Scan.Filter

/-! # Explicit selections

What is taken of an explicit list of paths.

* `Path.firsts` lists the paths of a list that are the same as no earlier one. `distinctPaths_eq`:
  these are what is left when repetitions are dropped.
* `distinctPaths_seen` takes what was seen before out of a list without repetitions, from which
  follows what becomes of a list that is put behind another one.
* `Path.Counterpart` says that a path is in a project elsewhere what another one is here, and
  `Path.MovesTo` what becomes of a list when the project moves. `CandidateFilter.accepts_eq`: both
  projects accept the one or the other alike. -/

namespace Trellis

/-! ### Repetitions -/

namespace Path

/-- The paths of a list that are the same as no earlier one. -/
def firsts (ps : List Path) : List Path :=
  (ps.zipIdx.filter fun e => !(ps.take e.2).any (·.same e.1)).map (·.1)

theorem firsts_concat (ps : List Path) (p : Path) :
    firsts (ps ++ [p]) = firsts ps ++ if ps.any (·.same p) then [] else [p] := by
  have hbefore : (ps.zipIdx.filter fun e => !((ps ++ [p]).take e.2).any (·.same e.1)) =
      ps.zipIdx.filter fun e => !(ps.take e.2).any (·.same e.1) := by
    refine List.filter_congr fun e he => ?_
    have hle := (List.mem_zipIdx he).2.1
    rw [List.take_append_of_le_length (by omega)]
  rw [firsts, firsts, List.zipIdx_append, List.filter_append, hbefore, List.map_append]
  congr 1
  cases h : ps.any (·.same p) <;> simp [h]

end Path

/-- Whether one of some paths is the same as a path depends only on its components. -/
theorem any_same_congr {p q : Path} (h : p.components = q.components) (ps : List Path) :
    ps.any (·.same p) = ps.any (·.same q) := by
  simp only [Path.same, h]

theorem distinctPaths_concat (seen ps : List Path) (p : Path) :
    distinctPaths seen (ps ++ [p]) =
      distinctPaths seen ps ++ if (seen ++ ps).any (·.same p) then [] else [p] := by
  induction ps generalizing seen with
  | nil =>
      rw [List.nil_append, List.append_nil, distinctPaths, distinctPaths, distinctPaths]
      rfl
  | cons q ps ih =>
      have hperm : (q :: seen ++ ps).any (·.same p) = (seen ++ q :: ps).any (·.same p) := by
        simp only [List.any_append, List.any_cons, Bool.or_assoc, Bool.or_left_comm]
      rw [List.cons_append, distinctPaths, distinctPaths]
      split
      · next hseen =>
        -- The path that is dropped is there already, so what comes after it meets the same paths.
        rw [ih]
        have hsame : (seen ++ ps).any (·.same p) = (seen ++ q :: ps).any (·.same p) := by
          rw [List.any_append, List.any_append, List.any_cons]
          cases hq : q.same p with
          | false => rw [Bool.false_or]
          | true =>
              rw [any_same_congr ((Path.same_iff q p).mp hq).symm seen, hseen, Bool.true_or,
                Bool.true_or]
        rw [hsame]
      · rw [ih, hperm, List.cons_append]

theorem distinctPaths_eq (ps : List Path) : distinctPaths [] ps = Path.firsts ps := by
  induction ps using List.reverseRecOn with
  | nil => rfl
  | append_singleton ps p ih =>
      rw [distinctPaths_concat, Path.firsts_concat, ih, List.nil_append]

/-- What was seen before is left out. -/
theorem distinctPaths_seen (seen ps : List Path) :
    distinctPaths seen ps = (distinctPaths [] ps).filter fun p => !seen.any (·.same p) := by
  induction ps generalizing seen with
  | nil => rfl
  | cons p ps ih =>
      rw [distinctPaths, distinctPaths, List.any_nil, if_neg Bool.false_ne_true, List.filter_cons,
        ih [p], List.filter_filter]
      cases hseen : seen.any (·.same p) with
      | true =>
          rw [if_pos rfl, ih seen, if_neg (by simp)]
          refine List.filter_congr fun q _ => ?_
          -- A path that is the same as `p` was seen before with it.
          cases hpq : p.same q with
          | false => simp [hpq]
          | true => rw [any_same_congr ((Path.same_iff p q).mp hpq).symm seen, hseen]; rfl
      | false =>
          rw [if_neg Bool.false_ne_true, ih (p :: seen), Bool.not_false, if_pos rfl]
          refine congrArg _ (List.filter_congr fun q _ => ?_)
          simp only [List.any_cons, List.any_nil, Bool.or_false, Bool.not_or, Bool.and_comm]

theorem distinctPaths_append (ps qs : List Path) : distinctPaths [] (ps ++ qs) =
    distinctPaths [] ps ++ (distinctPaths [] qs).filter fun q => !ps.any (·.same q) := by
  have hsplit (seen : List Path) : distinctPaths seen (ps ++ qs) =
      distinctPaths seen ps ++ distinctPaths (seen ++ ps) qs := by
    induction qs using List.reverseRecOn with
    | nil => rw [List.append_nil, distinctPaths, List.append_nil]
    | append_singleton qs q ih =>
        rw [← List.append_assoc, distinctPaths_concat, ih, distinctPaths_concat, List.append_assoc,
          List.append_assoc]
  rw [hsplit, List.nil_append, distinctPaths_seen ps]

theorem any_distinctPaths (ps : List Path) (q : Path) :
    (distinctPaths [] ps).any (·.same q) = ps.any (·.same q) := by
  induction ps using List.reverseRecOn with
  | nil => rfl
  | append_singleton ps p ih =>
      rw [distinctPaths_concat, List.nil_append, List.any_append, List.any_append, ih]
      split
      · next hany =>
        rw [List.any_nil, Bool.or_false, List.any_cons, List.any_nil, Bool.or_false]
        cases hpq : p.same q with
        | false => rw [Bool.or_false]
        | true => rw [← any_same_congr ((Path.same_iff p q).mp hpq) ps, hany]; rfl
      · rfl

theorem pairwise_distinctPaths (ps : List Path) :
    (distinctPaths [] ps).Pairwise fun p q => p.components ≠ q.components := by
  induction ps using List.reverseRecOn with
  | nil => exact .nil
  | append_singleton ps p ih =>
      rw [distinctPaths_concat, List.nil_append]
      split
      · rwa [List.append_nil]
      · next hany =>
        refine List.pairwise_append.mpr ⟨ih, List.pairwise_singleton _ p, fun q hq r hr heq => ?_⟩
        rw [List.mem_singleton.mp hr, ← Path.same_iff] at heq
        rw [← any_distinctPaths] at hany
        exact hany (List.any_eq_true.mpr ⟨q, hq, heq⟩)

/-- A list without repetitions stays as it is. -/
theorem distinctPaths_of_pairwise {ps : List Path}
    (h : ps.Pairwise fun p q => p.components ≠ q.components) : distinctPaths [] ps = ps := by
  induction ps with
  | nil => rfl
  | cons p ps ih =>
      obtain ⟨hp, hps⟩ := List.pairwise_cons.mp h
      rw [distinctPaths, List.any_nil, if_neg Bool.false_ne_true, distinctPaths_seen, ih hps,
        List.filter_eq_self.mpr]
      intro q hq
      simp [Path.same, hp q hq]

/-! ### Projects elsewhere -/

/-- Whether `q` is for a project at `root'` what `p` is for one at `root`: they lie below the roots
at the same components, or are one path that lies below neither. A root itself is told by the
extension of its own name. -/
inductive Path.Counterpart (root root' : Path) : (p q : Path) → Prop
  | inside {p q : Path} (rest : List Component) (hp : p.components = root.components ++ rest)
      (hq : q.components = root'.components ++ rest)
      (hroot : rest = [] → root.extension? = root'.extension?) : Counterpart root root' p q
  | outside {p : Path} (hp : ¬ root.components <+: p.components)
      (hq : ¬ root'.components <+: p.components) : Counterpart root root' p p

namespace Path.Counterpart

variable {root root' p q p' q' : Path}

/-- Counterparts are the same as seen from the roots. -/
theorem components_eq (h : Counterpart root root' p q) :
    (p.relativeTo root).components = (q.relativeTo root').components := by
  rw [components_relativeTo, components_relativeTo]
  cases h with
  | inside rest hp hq _ =>
      rw [hp, hq, if_pos (List.prefix_append _ _), if_pos (List.prefix_append _ _), List.drop_left,
        List.drop_left]
  | outside hp hq => rw [if_neg hp, if_neg hq]

theorem extension?_eq (h : Counterpart root root' p q) : p.extension? = q.extension? := by
  cases h with
  | outside => rfl
  | inside rest hp hq hroot =>
      rw [extension?, extension?, fileName?, fileName?, hp, hq]
      cases rest with
      | nil =>
          rw [List.append_nil, List.append_nil]
          exact hroot rfl
      | cons x rest =>
          rw [List.getLast?_append_of_ne_nil _ (List.cons_ne_nil x rest),
            List.getLast?_append_of_ne_nil _ (List.cons_ne_nil x rest)]

/-- Paths are the same where their counterparts are. -/
theorem same_eq (h : Counterpart root root' p q) (h' : Counterpart root root' p' q') :
    p.same p' = q.same q' := by
  rw [Bool.eq_iff_iff, same_iff, same_iff]
  cases h with
  | inside rest hp hq _ =>
      cases h' with
      | inside rest' hp' hq' _ => rw [hp, hp', hq, hq', List.append_cancel_left_eq,
          List.append_cancel_left_eq]
      | outside hp' hq' =>
          refine iff_of_false (fun heq => hp' ?_) fun heq => hq' ?_
          · exact ⟨rest, hp.symm.trans heq⟩
          · exact ⟨rest, hq.symm.trans heq⟩
  | outside hp hq =>
      cases h' with
      | inside rest' hp' hq' _ =>
          refine iff_of_false (fun heq => hp ?_) fun heq => hq ?_
          · exact ⟨rest', hp'.symm.trans heq.symm⟩
          · exact ⟨rest', hq'.symm.trans heq.symm⟩
      | outside => rfl

end Path.Counterpart

/-- Whether a path of a list is, once the project at `root` has moved to `root'`, the one or the
other: a relative path stays as it is, and an absolute one goes along with the project. -/
inductive Path.MovesTo (root root' : Path) : (p q : Path) → Prop
  | relative {p : Path} (hp : p.isAbsolute = false)
      (hroot : namesOf p.text.toList = [] → root.extension? = root'.extension?) :
      MovesTo root root' p p
  | absolute {p q : Path} (hp : p.isAbsolute = true) (hq : q.isAbsolute = true)
      (h : Counterpart root root' p q) : MovesTo root root' p q

/-- Taken from the roots, paths that move are counterparts. -/
theorem Path.MovesTo.counterpart {root root' p q : Path} (h : MovesTo root root' p q)
    (hroot : root.isAbsolute = true) (hroot' : root'.isAbsolute = true) :
    Counterpart root root' (root.join p) (root'.join q) := by
  have hne {r : Path} (hr : r.isAbsolute = true) : r.text ≠ "" := by
    intro heq
    rw [isAbsolute, heq] at hr
    cases hr
  cases h with
  | relative hp hext =>
      refine .inside (namesOf p.text.toList) ?_ ?_ hext
      · rw [components_join root hp, if_neg (hne hroot)]
      · rw [components_join root' hp, if_neg (hne hroot')]
  | absolute hp hq h => rwa [join, if_pos hp, join, if_pos hq]

/-- What is accepted depends only on the extension and on the components below the root. -/
theorem CandidateFilter.accepts_eq (f : CandidateFilter) {root root' p q : Path}
    (hrelative : (p.relativeTo root).components = (q.relativeTo root').components)
    (hextension : p.extension? = q.extension?) : f.accepts p root = f.accepts q root' := by
  simp only [accepts, hasExtension, hextension, isTestPath, inTestDir_eq, hasTestName,
    Path.fileName?, hrelative]

/-! ### Selections -/

section selection
variable (s : Config.Scan) {root : Path}

/-- The paths of a list that are candidates of the project at a root. -/
def chosen (root : Path) (paths : List Path) : List Path :=
  (paths.map root.join).filter fun p => (CandidateFilter.ofConfig s).accepts p root

theorem selectCandidates_eq (root : Path) (paths : List Path) :
    selectCandidates s root paths = distinctPaths [] (chosen s root paths) := rfl

theorem mem_selectCandidates {root p : Path} {paths : List Path}
    (h : p ∈ selectCandidates s root paths) : p ∈ chosen s root paths := by
  rw [selectCandidates_eq, distinctPaths_eq] at h
  obtain ⟨e, he, rfl⟩ := List.mem_map.mp h
  exact (List.mem_zipIdx (List.mem_of_mem_filter he)).2.2 ▸ List.getElem_mem _

/-- What is selected is absolute, and taken from the root it stays as it is. -/
theorem chosen_selectCandidates (hroot : root.isAbsolute = true) (paths : List Path) :
    chosen s root (selectCandidates s root paths) = selectCandidates s root paths := by
  have habsolute : ∀ p ∈ selectCandidates s root paths, root.join p = p := by
    intro p hp
    obtain ⟨q, -, rfl⟩ := List.mem_map.mp (List.mem_of_mem_filter (mem_selectCandidates s hp))
    have hjoin : (root.join q).isAbsolute = true := by
      cases hq : q.isAbsolute with
      | false => rw [Path.isAbsolute_join root hq, hroot]
      | true => rwa [Path.join, if_pos hq]
    rw [Path.join, if_pos hjoin]
  rw [chosen, List.map_congr_left habsolute, List.map_id', List.filter_eq_self]
  exact fun p hp => (List.mem_filter.mp (mem_selectCandidates s hp)).2

theorem chosen_counterparts {root' : Path} (hroot : root.isAbsolute = true)
    (hroot' : root'.isAbsolute = true) {paths paths' : List Path}
    (h : List.Forall₂ (Path.MovesTo root root') paths paths') :
    List.Forall₂ (Path.Counterpart root root') (chosen s root paths) (chosen s root' paths') := by
  induction h with
  | nil => exact .nil
  | @cons p q paths paths' hpq _ ih =>
      have hpq := hpq.counterpart hroot hroot'
      rw [chosen, List.map_cons, List.filter_cons, chosen, List.map_cons, List.filter_cons,
        CandidateFilter.accepts_eq _ hpq.components_eq hpq.extension?_eq]
      split
      · exact .cons hpq ih
      · exact ih

theorem distinctPaths_counterparts {root' : Path} {seen seen' ps qs : List Path}
    (hseen : List.Forall₂ (Path.Counterpart root root') seen seen')
    (h : List.Forall₂ (Path.Counterpart root root') ps qs) :
    List.Forall₂ (Path.Counterpart root root') (distinctPaths seen ps)
      (distinctPaths seen' qs) := by
  induction h generalizing seen seen' with
  | nil => exact .nil
  | @cons p q ps qs hpq _ ih =>
      have hany : seen.any (·.same p) = seen'.any (·.same q) := by
        induction hseen with
        | nil => rfl
        | cons hxy _ ih => rw [List.any_cons, List.any_cons, hxy.same_eq hpq, ih]
      rw [distinctPaths, distinctPaths, hany]
      split
      · exact ih hseen
      · exact .cons hpq (ih (.cons hpq hseen))

theorem map_relativeTo_eq {root' : Path} {ps qs : List Path}
    (h : List.Forall₂ (Path.Counterpart root root') ps qs) :
    ps.map (fun p => (p.relativeTo root).components) =
      qs.map fun q => (q.relativeTo root').components := by
  induction h with
  | nil => rfl
  | cons hpq _ ih => rw [List.map_cons, List.map_cons, hpq.components_eq, ih]

/-- A selection takes the candidates of a list, each where it comes first and no two of them the
same. Selected once more it stays as it is; a list behind another one adds what the other one has
not. What is a candidate depends on the extension and on the components below the root, so that the
selection for a project elsewhere is the same as seen from its root. -/
theorem select_lawful (hroot : root.isAbsolute = true) (paths : List Path) :
    selectCandidates s root paths = Path.firsts ((paths.map root.join).filter fun p =>
        (CandidateFilter.ofConfig s).accepts p root) ∧
      (selectCandidates s root paths).Pairwise (fun p q => p.components ≠ q.components) ∧
      selectCandidates s root (selectCandidates s root paths) = selectCandidates s root paths ∧
      (∀ more, selectCandidates s root (paths ++ more) = selectCandidates s root paths ++
        (selectCandidates s root more).filter
          fun p => !(selectCandidates s root paths).any (·.same p)) ∧
      (∀ (root' p q : Path) (rest : List Path.Component), p.components = root.components ++ rest →
        q.components = root'.components ++ rest → p.extension? = q.extension? →
        (CandidateFilter.ofConfig s).accepts p root =
          (CandidateFilter.ofConfig s).accepts q root') ∧
      ∀ (root' : Path) (paths' : List Path), root'.isAbsolute = true →
        List.Forall₂ (Path.MovesTo root root') paths paths' →
        (selectCandidates s root paths).map (fun p => (p.relativeTo root).components) =
          (selectCandidates s root' paths').map fun q => (q.relativeTo root').components := by
  refine ⟨distinctPaths_eq _, pairwise_distinctPaths _, ?_, fun more => ?_, ?_, ?_⟩
  · rw [selectCandidates_eq, chosen_selectCandidates s hroot]
    exact distinctPaths_of_pairwise (pairwise_distinctPaths _)
  · simp only [selectCandidates_eq, any_distinctPaths]
    rw [chosen, List.map_append, List.filter_append]
    exact distinctPaths_append _ _
  · intro root' p q rest hp hq hextension
    refine CandidateFilter.accepts_eq _ ?_ hextension
    rw [Path.components_relativeTo, Path.components_relativeTo, hp, hq,
      if_pos (List.prefix_append _ _), if_pos (List.prefix_append _ _), List.drop_left,
      List.drop_left]
  · intro root' paths' hroot' h
    have hselected := distinctPaths_counterparts .nil (chosen_counterparts s hroot hroot' h)
    rw [← selectCandidates_eq, ← selectCandidates_eq] at hselected
    exact map_relativeTo_eq hselected

end selection

namespace Moved

/-- Where the project is. -/
def here : Path := ⟨"/w/test/app"⟩

/-- Where it is moved. -/
def there : Path := ⟨"/q/"⟩

/-- Paths of the project, one of them in three spellings, and one of another project. -/
def paths : List Path :=
  [⟨"src/B.tsx"⟩, ⟨"/w/test/app/A.tsx"⟩, ⟨"./src//B.tsx"⟩, ⟨"test/C.tsx"⟩, ⟨"A.tsx"⟩,
    ⟨"/lib/D.tsx"⟩]

/-- The same paths after the move. -/
def paths' : List Path :=
  [⟨"src/B.tsx"⟩, ⟨"/q/A.tsx"⟩, ⟨"./src//B.tsx"⟩, ⟨"test/C.tsx"⟩, ⟨"A.tsx"⟩, ⟨"/lib/D.tsx"⟩]

theorem move : List.Forall₂ (Path.MovesTo here there) paths paths' :=
  .cons (.relative (by decide) fun _ => by decide) <|
  .cons (.absolute (by decide) (by decide)
    (.inside [.normal "A.tsx"] (by decide) (by decide) nofun)) <|
  .cons (.relative (by decide) fun _ => by decide) <|
  .cons (.relative (by decide) fun _ => by decide) <|
  .cons (.relative (by decide) fun _ => by decide) <|
  .cons (.absolute (by decide) (by decide) (.outside (by decide) (by decide))) .nil

end Moved

open Moved in
theorem select_lawful_moved : here.isAbsolute = true ∧ there.isAbsolute = true ∧
    selectCandidates .empty here paths =
      [⟨"/w/test/app/src/B.tsx"⟩, ⟨"/w/test/app/A.tsx"⟩, ⟨"/lib/D.tsx"⟩] ∧
    selectCandidates .empty here (selectCandidates .empty here paths) =
      selectCandidates .empty here paths ∧
    (selectCandidates .empty here paths).map (fun p => (p.relativeTo here).components) =
      (selectCandidates .empty there paths').map fun q => (q.relativeTo there).components := by
  have hhere : here.isAbsolute = true := by decide
  obtain ⟨-, -, hagain, -, -, hmoved⟩ := select_lawful .empty hhere paths
  exact ⟨hhere, by decide, by decide +kernel, hagain, hmoved there paths' (by decide) move⟩

/-- A root is taken for a source by the extension of its own name, which a move may change. -/
theorem root_named_like_source :
    (selectCandidates .empty ⟨"/p/app.tsx"⟩ [⟨"."⟩]).map
        (fun p => (p.relativeTo ⟨"/p/app.tsx"⟩).components) ≠
      (selectCandidates .empty ⟨"/p/app"⟩ [⟨"."⟩]).map
        fun q => (q.relativeTo ⟨"/p/app"⟩).components := by decide +kernel

end Trellis
