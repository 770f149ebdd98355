import Trellis.Proofs.Placement.Sought

/-! # What a path denotes as seen from a directory

A path that is shown as seen from a directory is to lead, resolved against that directory, where the
path itself leads.

* `Store.getLast?_route`: the route of a path at whose end nothing stands without meaning does not end
  with a dot. `Store.locate_of_trail`: paths with the same trail find the same files.
* `Path.Denotes` says when a text, resolved against a directory, denotes what a path denotes.
* `Path.denotes_relativeTo`: so does a path as seen from a directory, if the path is absolute, or lies below
  the directory, or the directory is the one the path starts from. -/

namespace Trellis

/-! ### Routes -/

namespace Store

variable {s : Store} {p q : Path} {x : Place} {c : Content}

theorem route_join_relative (dir : Path) {sub : Path} (h : sub.isAbsolute = false)
    (hne : sub.text ≠ "") : route (dir.join sub) = steps dir.text ++ route sub := by
  rw [route, route, Path.steps_join dir h, wantsDirectory, wantsDirectory, Path.getLast?_join dir hne,
    List.append_assoc]

/-- The route of a trimmed path does not end with a dot, if there is anything else on it. -/
theorem getLast?_route (h : p.IsTrimmed) (hne : p.trail ≠ []) : (route p).getLast? ≠ some "." := by
  obtain ⟨rev, hrev⟩ : ∃ rev : List Char, p.text.toList = rev.reverse :=
    ⟨_, (List.reverse_reverse _).symm⟩
  have hsteps : steps p.text = stepsOf rev.reverse := congrArg stepsOf hrev
  have htrim : Path.trimEndRev rev = rev := by
    rw [Path.IsTrimmed, hrev, Path.trimEnd, List.reverse_reverse] at h
    exact List.reverse_injective h
  -- The text up to its last separator, and the name after it.
  have hsplit := List.takeWhile_append_dropWhile (p := fun c => decide (c ≠ '/')) (l := rev)
  have hname : ∀ c ∈ (rev.takeWhile fun c => decide (c ≠ '/')).reverse, c ≠ '/' := by
    intro c hc
    have hall := List.all_takeWhile (l := rev) (p := fun c => decide (c ≠ '/'))
    exact of_decide_eq_true (List.all_eq_true.mp hall c (List.mem_reverse.mp hc))
  generalize hpiece : (rev.takeWhile fun c => decide (c ≠ '/')) = piece at hsplit hname
  have hlast (hnil : piece ≠ []) : wantsDirectory p.text = false := by
    rw [wantsDirectory, decide_eq_false_iff_not, hrev, List.getLast?_reverse, ← hsplit,
      List.head?_append_of_ne_nil _ hnil]
    exact fun hhead => hname '/' (List.mem_reverse.mpr (List.mem_of_mem_head? hhead)) rfl
  cases hdir : rev.dropWhile fun c => decide (c ≠ '/') with
  | nil =>
      rw [hdir, List.append_nil] at hsplit
      subst hsplit
      by_cases hnil : piece = []
      · refine absurd ?_ hne
        rw [Path.trail, hsteps, hnil]
        rfl
      · have hone : steps p.text = [String.ofList piece.reverse] := by
          rw [hsteps, stepsOf_name (by simpa using hnil) hname]
        rw [route, hlast hnil, if_neg Bool.false_ne_true, List.append_nil, hone,
          List.getLast?_singleton]
        intro hdot
        rw [Path.trail, hone, Option.some.inj hdot] at hne
        exact hne rfl
  | cons c dir =>
      obtain rfl : c = '/' := by
        have hc := List.head?_dropWhile_not (fun c => decide (c ≠ '/')) rev
        rw [hdir] at hc
        simpa using hc
      rw [hdir] at hsplit
      have hnil : piece ≠ [] := by
        rintro rfl
        rw [List.nil_append] at hsplit
        rw [← hsplit] at htrim hsteps
        obtain rfl := Path.eq_nil_of_trimEndRev htrim
        exact hne (by rw [Path.trail, hsteps]; rfl)
      have hdot : piece ≠ ['.'] := by
        rintro rfl
        rw [← hsplit, List.singleton_append, Path.trimEndRev] at htrim
        have hlen := (Path.trimEndRev_suffix ('/' :: dir)).length_le
        rw [htrim] at hlen
        simp at hlen
      have hwhole : steps p.text = stepsOf dir.reverse ++ [String.ofList piece.reverse] := by
        rw [hsteps, ← stepsOf_name (by simpa using hnil) hname, ← stepsOf_append, ← hsplit,
          List.reverse_append, List.reverse_cons, List.append_assoc]
        rfl
      rw [route, hlast hnil, if_neg Bool.false_ne_true, List.append_nil, hwhole,
        List.getLast?_concat]
      intro heq
      have hlist := congrArg String.toList (Option.some.inj heq)
      rw [String.toList_ofList] at hlist
      exact hdot (List.reverse_injective hlist)

/-- A path without a dot at its end finds the files that a path with the same trail finds. -/
theorem locate_of_trail (hs : s.HasShortLinks) (hstart : q.isAbsolute = p.isAbsolute)
    (htrail : q.trail = p.trail) (hlast : (route q).getLast? ≠ some ".") (hq : IsPath q)
    (hl : s.locate true p = .ok (.at x (.file c))) : s.locate true q = .ok (.at x (.file c)) := by
  obtain ⟨-, hroute⟩ := (locate_iff_arrives hs).mp hl
  obtain ⟨before, last, hp, hdot, hptrail⟩ := exists_trail_of_file hs hl
  have hne : route q ≠ [] := by
    intro hnil
    have hqtrail := filter_route q
    rw [hnil, htrail, hptrail] at hqtrail
    simp at hqtrail
  obtain ⟨before', last', hq'⟩ : ∃ before' last', route q = before' ++ [last'] :=
    ⟨_, _, (List.dropLast_append_getLast hne).symm⟩
  rw [hq', List.getLast?_concat] at hlast
  have hqtrail := filter_route q
  rw [hq', List.filter_append, List.filter_cons_of_pos (by simpa using hlast), htrail, hptrail]
    at hqtrail
  rw [locate_iff_arrives hs, and_iff_right hq, hq', ← arrives_filter (List.cons_ne_nil _ _)]
  rw [hp, ← arrives_filter (List.cons_ne_nil _ _)] at hroute
  rw [start, hstart]
  exact hqtrail ▸ hroute

end Store

/-! ### Seen from a directory -/

namespace Path

open Store (route IsPath)

variable {root p q : Path}

/-- Whether a text, resolved against a directory, denotes what a path denotes. -/
structure Denotes (root : Path) (text : String) (p : Path) : Prop where
  /-- It starts at the same directory. -/
  start : (root.join ⟨text⟩).isAbsolute = p.isAbsolute
  /-- It takes the same steps. -/
  trail : (root.join ⟨text⟩).trail = p.trail
  /-- It finds the same file in every store, unless the path is that of the directory. -/
  file : ∀ s : Store, s.HasShortLinks → IsPath (root.join ⟨text⟩) → p.same root = false →
    ∀ x c, s.locate true p = .ok (.at x (.file c)) →
      s.locate true (root.join ⟨text⟩) = .ok (.at x (.file c))

theorem isTrimmed_of_stripPrefix? (h : p.stripPrefix? root = some q) : q.IsTrimmed := by
  have htrim (s : List Char) : trimEnd (trimEnd s) = trimEnd s := by
    rw [trimEnd, trimEnd, List.reverse_reverse, trimEndRev_trimEndRev]
  unfold stripPrefix? at h
  dsimp only at h
  split at h
  · cases h
    rw [IsTrimmed, String.toList_ofList, dropComponents]
    split
    · exact htrim _
    · split <;> exact htrim _
  · cases h

/-- Behind the first component there are but names and steps up. -/
theorem mem_namesOf_of_mem_drop {n : Nat} {x : Component} (h : x ∈ p.components.drop (n + 1)) :
    x ∈ namesOf p.text.toList := by
  have hleading : (leading p.text.toList).length ≤ n + 1 := by
    unfold leading
    split <;> simp
  rw [components, componentsOf_eq, List.drop_append, List.drop_eq_nil_of_le hleading,
    List.nil_append] at h
  exact List.mem_of_mem_drop h

/-- A path below a directory continues the components of the directory. -/
theorem components_append_relativeTo (h : root.components <+: p.components) :
    root.components ++ (p.relativeTo root).components = p.components := by
  obtain ⟨more, hmore⟩ := h
  rw [components_relativeTo, if_pos ⟨more, hmore⟩, ← hmore, List.drop_left]

/-- A path that is absolute as seen from a directory above it is seen from no directory. -/
theorem components_eq_nil_of_isAbsolute (h : root.components <+: p.components)
    (habs : (p.relativeTo root).isAbsolute = true) : root.components = [] := by
  rw [isAbsolute_iff, components_relativeTo, if_pos h] at habs
  cases hroot : root.components with
  | nil => rfl
  | cons x xs =>
      rw [hroot] at habs
      rcases name_or_parent_of_mem_namesOf
        (mem_namesOf_of_mem_drop (List.mem_of_mem_head? habs)) with ⟨_, heq⟩ | ⟨heq, _⟩ <;> cases heq

theorem isAbsolute_join_relativeTo (h : root.components <+: p.components) :
    (root.join (p.relativeTo root)).isAbsolute = p.isAbsolute := by
  have hwhole := components_append_relativeTo h
  cases habs : (p.relativeTo root).isAbsolute with
  | true =>
      rw [components_eq_nil_of_isAbsolute h habs, List.nil_append] at hwhole
      rw [join, if_pos habs, Bool.eq_iff_iff, isAbsolute_iff, isAbsolute_iff, hwhole]
  | false =>
      rw [isAbsolute_join root habs, Bool.eq_iff_iff, isAbsolute_iff, isAbsolute_iff, ← hwhole]
      rw [← Bool.not_eq_true, isAbsolute_iff] at habs
      cases hroot : root.components with
      | nil => simpa using habs
      | cons x xs => rfl

theorem trail_join_relativeTo (h : root.components <+: p.components) :
    (root.join (p.relativeTo root)).trail = p.trail := by
  have hwhole := components_append_relativeTo h
  cases habs : (p.relativeTo root).isAbsolute with
  | true =>
      rw [components_eq_nil_of_isAbsolute h habs, List.nil_append] at hwhole
      rw [join, if_pos habs, trail_eq, trail_eq, hwhole]
  | false =>
      rw [trail_join root habs, trail_eq, trail_eq, trail_eq, ← List.filterMap_append, hwhole]

/-- There are steps from a directory to a path below it. -/
theorem trail_relativeTo_ne_nil (h : root.components <+: p.components) (hne : p.same root = false)
    (htrail : p.trail ≠ []) : (p.relativeTo root).trail ≠ [] := by
  have hwhole := components_append_relativeTo h
  rw [trail_eq]
  cases hroot : root.components with
  | nil =>
      rw [hroot, List.nil_append] at hwhole
      rw [hwhole, ← trail_eq]
      exact htrail
  | cons x xs =>
      cases hrel : (p.relativeTo root).components with
      | nil =>
          rw [hrel, List.append_nil] at hwhole
          rw [← Bool.not_eq_true, same_iff] at hne
          exact absurd hwhole.symm hne
      | cons y ys =>
          have hy : y ∈ p.components.drop (xs.length + 1) := by
            rw [← hwhole, hroot, hrel]
            simp
          rcases name_or_parent_of_mem_namesOf (mem_namesOf_of_mem_drop hy) with
            ⟨name, rfl⟩ | ⟨rfl, -⟩ <;> simp [Component.step?]

/-- A path as seen from a directory above it denotes the same. -/
theorem denotes_of_below (h : root.components <+: p.components) :
    root.Denotes (p.relativeTo root).text p := by
  refine ⟨isAbsolute_join_relativeTo h, trail_join_relativeTo h, fun s hs hq hne x c hl => ?_⟩
  refine Store.locate_of_trail hs (isAbsolute_join_relativeTo h) (trail_join_relativeTo h) ?_ hq hl
  obtain ⟨before, last, -, -, hptrail⟩ := Store.exists_trail_of_file hs hl
  have htrail := trail_relativeTo_ne_nil h hne (by simp [hptrail])
  have hstrip : p.stripPrefix? root = some (p.relativeTo root) := by
    rw [relativeTo, stripPrefix?, if_pos (List.isPrefixOf_iff_prefix.mpr h)]
    rfl
  have hlast := Store.getLast?_route (isTrimmed_of_stripPrefix? hstrip) htrail
  change (route (root.join (p.relativeTo root))).getLast? ≠ some "."
  cases habs : (p.relativeTo root).isAbsolute with
  | true => rwa [join, if_pos habs]
  | false =>
      have htext : (p.relativeTo root).text ≠ "" := by
        intro hnil
        rw [trail, hnil] at htrail
        exact htrail rfl
      have hroute : route (p.relativeTo root) ≠ [] := by
        intro hnil
        have hfilter := Store.filter_route (p.relativeTo root)
        rw [hnil] at hfilter
        exact htrail hfilter.symm
      rwa [Store.route_join_relative root habs htext, List.getLast?_append_of_ne_nil _ hroute]

/-- A path as seen from a directory denotes the same, if it is absolute, or lies below the directory, or
the directory is the one it starts from. -/
theorem denotes_relativeTo (h : p.isAbsolute = true ∨ root.components <+: p.components ∨
    root.isAbsolute = false ∧ root.trail = []) : root.Denotes (p.relativeTo root).text p := by
  by_cases hbelow : root.components <+: p.components
  · exact denotes_of_below hbelow
  · have hself : p.relativeTo root = p := by
      rw [relativeTo, stripPrefix?, if_neg fun hp => hbelow (List.isPrefixOf_iff_prefix.mp hp)]
      rfl
    rw [hself]
    cases habs : p.isAbsolute with
    | true =>
        have hjoin : root.join p = p := by rw [join, if_pos habs]
        refine ⟨congrArg isAbsolute hjoin, congrArg trail hjoin, fun s _ _ _ x c hl => ?_⟩
        change s.locate true (root.join p) = _
        rw [hjoin]
        exact hl
    | false =>
        obtain ⟨hroot, hnil⟩ : root.isAbsolute = false ∧ root.trail = [] := by
          rcases h with h | h | h
          · rw [habs] at h
            cases h
          · exact absurd h hbelow
          · exact h
        have hstart : (root.join p).isAbsolute = p.isAbsolute := by
          rw [isAbsolute_join root habs, hroot, habs]
        have htrail : (root.join p).trail = p.trail := by
          rw [trail_join root habs, hnil, List.nil_append]
        refine ⟨hstart, htrail, fun s hs hq _ x c hl => ?_⟩
        obtain ⟨before, last, hp, hdot, -⟩ := Store.exists_trail_of_file hs hl
        have htext := ((Store.locate_iff_arrives hs).mp hl).1.1
        refine Store.locate_of_trail hs hstart htrail ?_ hq hl
        change (route (root.join p)).getLast? ≠ some "."
        rw [Store.route_join_relative root habs htext, hp, ← List.append_assoc, List.getLast?_concat]
        exact fun heq => hdot (Option.some.inj heq)

end Path

end Trellis
