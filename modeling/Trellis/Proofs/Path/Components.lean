import Mathlib.Data.List.Basic
import Trellis.Proofs.Store.Parents

/-! # Components of paths

What cutting and joining do to the components of a path. What stands in the text of a path without
meaning does not matter for any of it.

* `Path.componentsOf_append`: behind a separator every piece is a component of its own.
* `Path.components_of_parent?`, `Path.components_relativeTo`, `Path.components_join`: the directory
  has all components but the last, a path below another loses the components of that one, and a
  relative path goes on where a directory ends. -/

namespace Trellis.Path

/-! ### Pieces -/

/-- The components of pieces that follow a separator. -/
def namesOf (s : List Char) : List Component := (pieces s).filterMap componentOf?

theorem namesOf_append (before after : List Char) :
    namesOf (before ++ '/' :: after) = namesOf before ++ namesOf after := by
  unfold namesOf pieces
  rw [Text.Search.splitWhere_append_cons (by decide), List.filterMap_append]

theorem namesOf_nil : namesOf [] = [] := rfl

theorem namesOf_slash (s : List Char) : namesOf ('/' :: s) = namesOf s := namesOf_append [] s

/-- A name is one component, unless it means nothing. -/
theorem namesOf_name {name : List Char} (h : ∀ c ∈ name, c ≠ '/') :
    namesOf name = (componentOf? name).toList := by
  rw [namesOf, pieces_name h, List.filterMap_cons, List.filterMap_nil]
  cases componentOf? name <;> rfl

theorem componentsOf_eq (s : List Char) : componentsOf s = leading s ++ namesOf s := rfl

/-- Nothing stands apart from the pieces at the start of most texts. -/
theorem leading_eq_nil {s : List Char} (hroot : ∀ r, s ≠ '/' :: r) (hup : ∀ r, s ≠ '.' :: '/' :: r)
    (hdot : s ≠ ['.']) : leading s = [] := by
  unfold leading
  split <;> simp_all

/-- Behind a separator every piece is a component of its own. -/
theorem componentsOf_append (before after : List Char) :
    componentsOf (before ++ '/' :: after) = componentsOf (before ++ ['/']) ++ namesOf after := by
  have hleading : leading (before ++ '/' :: after) = leading (before ++ ['/']) := by
    rcases before with _ | ⟨c, _ | ⟨d, rest⟩⟩
    · rfl
    · simp only [List.cons_append, List.nil_append, leading]
      split <;> split <;> simp_all
    · simp only [List.cons_append, leading]
      split <;> split <;> simp_all
  rw [componentsOf_eq, componentsOf_eq, hleading, namesOf_append, namesOf_append, namesOf_nil,
    List.append_nil, List.append_assoc]

theorem componentsOf_concat {before : List Char} (h : before ≠ []) :
    componentsOf (before ++ ['/']) = componentsOf before := by
  have hleading : leading (before ++ ['/']) = leading before := by
    rcases before with _ | ⟨c, _ | ⟨d, rest⟩⟩
    · exact absurd rfl h
    · by_cases hroot : c = '/'
      · rw [hroot]
        rfl
      · by_cases hdot : c = '.'
        · rw [hdot]
          rfl
        · simp [leading, hroot, hdot]
    · simp only [List.cons_append, leading]
      split <;> split <;> simp_all
  rw [componentsOf_eq, componentsOf_eq, hleading, namesOf_append, namesOf_nil, List.append_nil]

/-! ### What means nothing -/

/-- What is taken off at the end of a text is no component. -/
theorem componentsOf_trimEndRev (rev : List Char) :
    componentsOf (trimEndRev rev).reverse = componentsOf rev.reverse := by
  induction rev using trimEndRev.induct with
  | case1 c rest ih =>
      rw [trimEndRev, ih, List.reverse_cons (a := '/'), componentsOf_concat (by simp)]
  | case2 rest ih =>
      rw [trimEndRev, ih, List.reverse_cons (a := '.'), List.reverse_cons, List.append_assoc]
      exact ((componentsOf_append rest.reverse ['.']).trans (List.append_nil _)).symm
  | case3 rev h₁ h₂ => rw [trimEndRev.eq_3 rev h₁ h₂]

theorem componentsOf_trimEnd (s : List Char) : componentsOf (trimEnd s) = componentsOf s := by
  rw [trimEnd, componentsOf_trimEndRev, List.reverse_reverse]

/-- What is taken off at the start of a text between two components is no component. -/
theorem componentsOf_trimStart (s : List Char) : componentsOf (trimStart s) = namesOf s := by
  induction s using trimStart.induct with
  | case1 rest ih => rw [trimStart, ih, namesOf_slash]
  | case2 rest ih =>
      rw [trimStart, ih]
      exact (namesOf_append ['.'] rest).symm
  | case3 => rfl
  | case4 s h₁ h₂ h₃ =>
      rw [trimStart.eq_4 s h₁ h₂ h₃, componentsOf_eq, leading_eq_nil h₁ h₂ h₃, List.nil_append]

/-! ### Names -/

/-- A piece means something unless it is empty or a dot. -/
theorem exists_componentOf? {name : List Char} (hne : name ≠ []) (hdot : name ≠ ['.']) :
    ∃ x, componentOf? name = some x := by
  unfold componentOf?
  rw [if_neg (by simp [hne, hdot])]
  split
  · exact ⟨_, rfl⟩
  · exact ⟨_, rfl⟩

/-- A name is its only component. -/
theorem componentsOf_name {name : List Char} {x : Component} (hname : ∀ c ∈ name, c ≠ '/')
    (hx : componentOf? name = some x) : componentsOf name = [x] := by
  have hroot (r : List Char) : name ≠ '/' :: r := by
    rintro rfl
    exact hname '/' List.mem_cons_self rfl
  have hup (r : List Char) : name ≠ '.' :: '/' :: r := by
    rintro rfl
    exact hname '/' (List.mem_cons_of_mem _ List.mem_cons_self) rfl
  have hdot : name ≠ ['.'] := by
    rintro rfl
    cases hx
  rw [componentsOf_eq, leading_eq_nil hroot hup hdot, namesOf_name hname, hx]
  rfl

/-! ### Directories -/

variable {p q base : Path}

/-- The text up to the last separator of a text has all components of the text but the last. -/
theorem componentsOf_last {rev : List Char} (hne : rev ≠ []) (hroot : rev ≠ ['/'])
    (htrim : trimEndRev rev = rev) : ∃ x,
      componentsOf rev.reverse = componentsOf (rev.dropWhile (· ≠ '/')).reverse ++ [x] := by
  have hsplit := List.takeWhile_append_dropWhile (p := fun c => decide (c ≠ '/')) (l := rev)
  have hname : ∀ c ∈ (rev.takeWhile fun c => decide (c ≠ '/')).reverse, c ≠ '/' := by
    intro c hc
    have hall := List.all_takeWhile (l := rev) (p := fun c => decide (c ≠ '/'))
    exact of_decide_eq_true (List.all_eq_true.mp hall c (List.mem_reverse.mp hc))
  generalize (rev.takeWhile fun c => decide (c ≠ '/')) = last at hsplit hname
  cases hdir : rev.dropWhile fun c => decide (c ≠ '/') with
  | nil =>
      rw [hdir, List.append_nil] at hsplit
      rw [← hsplit] at hne ⊢
      by_cases hdot : last.reverse = ['.']
      · exact ⟨.current, by rw [hdot]; rfl⟩
      · obtain ⟨x, hx⟩ := exists_componentOf? (by simpa using hne) hdot
        exact ⟨x, componentsOf_name hname hx⟩
  | cons c dir =>
      obtain rfl : c = '/' := by
        have hc := List.head?_dropWhile_not (fun c => decide (c ≠ '/')) rev
        rw [hdir] at hc
        simpa using hc
      rw [hdir] at hsplit
      have hnil : last ≠ [] := by
        rintro rfl
        rw [← hsplit] at htrim hroot
        exact hroot (by rw [List.nil_append, eq_nil_of_trimEndRev htrim])
      have hdot : last ≠ ['.'] := by
        rintro rfl
        rw [← hsplit] at htrim
        have hlen := (trimEndRev_suffix ('/' :: dir)).length_le
        rw [List.cons_append, List.nil_append, trimEndRev] at htrim
        rw [htrim, List.length_cons] at hlen
        omega
      obtain ⟨x, hx⟩ := exists_componentOf? (by simpa using hnil : last.reverse ≠ [])
        (by simpa using hdot)
      refine ⟨x, ?_⟩
      rw [← hsplit, List.reverse_append, List.reverse_cons, List.append_assoc, List.singleton_append,
        componentsOf_append, namesOf_name hname, hx]
      rfl

/-- The directory of a path has all components of the path but the last. -/
theorem components_of_parent? (h : p.parent? = some q) :
    ∃ x, p.components = q.components ++ [x] := by
  obtain ⟨hne, hroot, htext⟩ := parent?_eq_some_iff.mp h
  have hp : p.components = componentsOf (trimEndRev p.text.toList.reverse).reverse := by
    rw [componentsOf_trimEndRev, List.reverse_reverse]
    rfl
  have hq : q.components = componentsOf
      ((trimEndRev p.text.toList.reverse).dropWhile (· ≠ '/')).reverse := by
    rw [← componentsOf_trimEndRev, ← htext, List.reverse_reverse]
    rfl
  rw [hp, hq]
  exact componentsOf_last hne hroot (trimEndRev_trimEndRev _)

/-- Only the root and the empty path have no directory. -/
theorem dropLast_components_of_none (h : p.parent? = none) : p.components.dropLast = [] := by
  unfold parent? parentOf? at h
  rw [Option.map_eq_none_iff] at h
  dsimp only at h
  split at h
  · rename_i hrev
    have hp : p.components = componentsOf (trimEndRev p.text.toList.reverse).reverse := by
      rw [componentsOf_trimEndRev, List.reverse_reverse]
      rfl
    rw [hp]
    simp only [Bool.or_eq_true, decide_eq_true_eq] at hrev
    rcases hrev with hrev | hrev
    · rw [hrev]
      rfl
    · rw [hrev]
      rfl
  · cases h

/-- The directory of a path has all components of the path but the last. -/
theorem components_parent (p : Path) : p.parent.components = p.components.dropLast := by
  unfold parent
  cases h : p.parent? with
  | none =>
      rw [dropLast_components_of_none h]
      rfl
  | some q =>
      obtain ⟨x, hx⟩ := components_of_parent? h
      rw [hx, List.dropLast_concat]
      rfl

/-! ### Paths below others -/

/-- What is left between two components starts with a component, if there is one. -/
theorem trimStart_spec (s : List Char) : (∀ r, trimStart s ≠ '/' :: r) ∧
    (∀ r, trimStart s ≠ '.' :: '/' :: r) ∧ trimStart s ≠ ['.'] := by
  induction s using trimStart.induct with
  | case1 rest ih =>
      rw [trimStart]
      exact ih
  | case2 rest ih =>
      rw [trimStart]
      exact ih
  | case3 => simp [trimStart]
  | case4 s h₁ h₂ h₃ =>
      rw [trimStart.eq_4 s h₁ h₂ h₃]
      exact ⟨h₁, h₂, h₃⟩

/-- Behind the first piece of a text stand the components but the first. -/
theorem namesOf_dropWhile {t : List Char} (hroot : ∀ r, t ≠ '/' :: r)
    (hup : ∀ r, t ≠ '.' :: '/' :: r) :
    namesOf (t.dropWhile (· ≠ '/')) = (namesOf t).drop 1 := by
  have hsplit := List.takeWhile_append_dropWhile (p := fun c => decide (c ≠ '/')) (l := t)
  have hname : ∀ c ∈ t.takeWhile fun c => decide (c ≠ '/'), c ≠ '/' := by
    intro c hc
    have hall := List.all_takeWhile (l := t) (p := fun c => decide (c ≠ '/'))
    exact of_decide_eq_true (List.all_eq_true.mp hall c hc)
  generalize (t.takeWhile fun c => decide (c ≠ '/')) = name at hsplit hname
  cases hrest : t.dropWhile fun c => decide (c ≠ '/') with
  | nil =>
      rw [hrest, List.append_nil] at hsplit
      rw [← hsplit, namesOf_name hname, namesOf_nil]
      cases componentOf? name <;> rfl
  | cons c rest =>
      obtain rfl : c = '/' := by
        have hc := List.head?_dropWhile_not (fun c => decide (c ≠ '/')) t
        rw [hrest] at hc
        simpa using hc
      rw [hrest] at hsplit
      have hne : name ≠ [] := by
        rintro rfl
        exact hroot rest hsplit.symm
      have hcur : name ≠ ['.'] := by
        rintro rfl
        exact hup rest hsplit.symm
      obtain ⟨x, hx⟩ := exists_componentOf? hne hcur
      rw [← hsplit, namesOf_append, namesOf_name hname, hx, namesOf_slash]
      rfl

/-- The text after some pieces spells the other components. -/
theorem componentsOf_dropPieces (n : Nat) (s : List Char) :
    componentsOf (dropPieces n s) = (namesOf s).drop n := by
  induction n generalizing s with
  | zero => exact componentsOf_trimStart s
  | succ n ih =>
      obtain ⟨hroot, hup, hdot⟩ := trimStart_spec s
      have hnames : namesOf s = namesOf (trimStart s) := by
        rw [← componentsOf_trimStart, componentsOf_eq, leading_eq_nil hroot hup hdot,
          List.nil_append]
      rw [dropPieces, ih, namesOf_dropWhile hroot hup, ← hnames, List.drop_drop,
        Nat.add_comm]

/-- The text after some components spells the others. -/
theorem componentsOf_dropComponents (n : Nat) (s : List Char) :
    componentsOf (dropComponents n s) = (componentsOf s).drop n := by
  unfold dropComponents
  cases n with
  | zero => exact componentsOf_trimEnd s
  | succ n =>
      rw [if_neg (Nat.succ_ne_zero n)]
      -- What stands apart from the pieces is one component.
      have hone : leading s = [] ∨ ∃ x, leading s = [x] ∧ namesOf (s.drop 1) = namesOf s := by
        unfold leading
        split
        · rename_i rest
          exact .inr ⟨_, rfl, (namesOf_slash rest).symm⟩
        · exact .inr ⟨_, rfl, rfl⟩
        · rename_i rest
          exact .inr ⟨_, rfl, (namesOf_slash rest).trans (namesOf_append ['.'] rest).symm⟩
        · exact .inl rfl
      rcases hone with hnil | ⟨x, hx, hdrop⟩
      · rw [hnil]
        dsimp only
        rw [componentsOf_trimEnd, componentsOf_dropPieces, componentsOf_eq, hnil, List.nil_append]
      · rw [hx]
        dsimp only
        rw [componentsOf_trimEnd, componentsOf_dropPieces, Nat.add_sub_cancel, hdrop,
          componentsOf_eq, hx]
        rfl

/-- A path below another loses the components of that one; any other stays as it is. -/
theorem components_relativeTo (p base : Path) : (p.relativeTo base).components =
    if base.components <+: p.components then p.components.drop base.components.length
    else p.components := by
  unfold relativeTo stripPrefix?
  dsimp only
  by_cases h : base.components <+: p.components
  · rw [if_pos h, if_pos (List.isPrefixOf_iff_prefix.mpr h), Option.getD_some, components,
      String.toList_ofList, componentsOf_dropComponents]
    rfl
  · rw [if_neg h, if_neg fun hp => h (List.isPrefixOf_iff_prefix.mp hp)]
    rfl

/-! ### Joining -/

theorem components_of_isAbsolute (h : p.isAbsolute = true) :
    p.components = .root :: namesOf p.text.toList := by
  rw [isAbsolute, decide_eq_true_eq, List.head?_eq_some_iff] at h
  obtain ⟨rest, hrest⟩ := h
  rw [components, componentsOf_eq, hrest]
  rfl

theorem isAbsolute_join (dir : Path) {sub : Path} (h : sub.isAbsolute = false) :
    (dir.join sub).isAbsolute = dir.isAbsolute := by
  unfold join
  rw [h, if_neg Bool.false_ne_true]
  cases hlast : dir.text.toList.getLast? with
  | none =>
      rw [List.getLast?_eq_none_iff] at hlast
      dsimp only
      rw [h, isAbsolute, hlast]
      rfl
  | some c =>
      obtain ⟨before, hbefore⟩ := List.getLast?_eq_some_iff.mp hlast
      have hhead (more : List Char) : (dir.text.toList ++ more).head? = dir.text.toList.head? := by
        rw [List.head?_append_of_ne_nil _ (by simp [hbefore])]
      split
      · contradiction
      · simp only [isAbsolute, String.toList_append, hhead]
      · simp only [isAbsolute, String.toList_append, List.append_assoc, hhead]

theorem getLast?_join (dir : Path) {sub : Path} (hne : sub.text ≠ "") :
    (dir.join sub).text.toList.getLast? = sub.text.toList.getLast? := by
  have hnil : sub.text.toList ≠ [] := fun hnil => hne (String.toList_eq_nil_iff.mp hnil)
  unfold join
  split
  · rfl
  · split
    · rfl
    all_goals rw [String.toList_append, List.getLast?_append_of_ne_nil _ hnil]

/-- A relative path goes on where a directory ends; in the empty path it stands alone. -/
theorem components_join (dir : Path) {sub : Path} (h : sub.isAbsolute = false) :
    (dir.join sub).components =
      if dir.text = "" then sub.components else dir.components ++ namesOf sub.text.toList := by
  unfold join
  rw [h, if_neg Bool.false_ne_true]
  cases hlast : dir.text.toList.getLast? with
  | none => rw [if_pos (String.toList_eq_nil_iff.mp (List.getLast?_eq_none_iff.mp hlast))]
  | some c =>
      obtain ⟨before, hbefore⟩ := List.getLast?_eq_some_iff.mp hlast
      have hne : dir.text ≠ "" := by
        intro hnil
        rw [hnil] at hlast
        cases hlast
      rw [if_neg hne]
      split
      · contradiction
      · rename_i heq
        cases heq
        rw [components, components, String.toList_append, hbefore, List.append_assoc,
          List.singleton_append, componentsOf_append]
      · have hchars : dir.text.toList ≠ [] := by simp [hbefore]
        rw [components, components, String.toList_append, String.toList_append,
          List.append_assoc, ← componentsOf_concat hchars]
        exact componentsOf_append _ _

/-- A name that is put into a directory is the last component. -/
theorem components_join_name (dir : Path) {name : String} {x : Component}
    (hname : ∀ c ∈ name.toList, c ≠ '/') (hx : componentOf? name.toList = some x) :
    (dir.join ⟨name⟩).components = dir.components ++ [x] := by
  have hrelative : (⟨name⟩ : Path).isAbsolute = false := by
    rw [isAbsolute, decide_eq_false_iff_not]
    intro hhead
    exact hname '/' (List.mem_of_mem_head? hhead) rfl
  have hnames : namesOf name.toList = [x] := by rw [namesOf_name hname, hx]; rfl
  rw [components_join dir hrelative, hnames]
  split
  · rename_i hdir
    rw [components, components, hdir, componentsOf_name hname hx]
    rfl
  · rfl

end Trellis.Path
