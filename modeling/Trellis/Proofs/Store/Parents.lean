import Trellis.Proofs.Store.Directories

/-! # The directory of a path

What a path has to do with its directory, as texts and as ways through a store.

* `Path.prefix_of_parent?`: the text of the directory is the start of the path's text. Nothing stands
  at its end without meaning (`Path.isTrimmed_of_parent?`).
* `Store.steps_of_parent?`: the steps to the directory are the first of the path's steps, and there
  are more. So the directory of a path that leads to anything is a directory
  (`Store.isDirectory_of_parent?`).
* `Store.ensureDirectory_of_isDirectory`: a directory that is there is not made. -/

namespace Trellis

/-! ### Texts -/

namespace Path

/-- What a path that is not empty is joined to makes no empty path. -/
theorem text_join_ne_empty (dir : Path) {p : Path} (h : p.text ≠ "") :
    (dir.join p).text ≠ "" := by
  unfold join
  split
  · exact h
  · split
    · exact h
    · simp [h]
    · simp [h]

/-- Characters are taken off at the start of a reversed text only. -/
theorem trimEndRev_suffix (rev : List Char) : trimEndRev rev <:+ rev := by
  induction rev using trimEndRev.induct with
  | case1 c rest ih =>
      rw [trimEndRev]
      exact ih.trans (List.suffix_cons _ _)
  | case2 rest ih =>
      rw [trimEndRev]
      exact ih.trans (List.suffix_cons _ _)
  | case3 rev h₁ h₂ =>
      exact ⟨[], trimEndRev.eq_3 rev h₁ h₂⟩

theorem trimEndRev_trimEndRev (rev : List Char) : trimEndRev (trimEndRev rev) = trimEndRev rev := by
  induction rev using trimEndRev.induct with
  | case1 c rest ih =>
      rw [trimEndRev]
      exact ih
  | case2 rest ih =>
      rw [trimEndRev]
      exact ih
  | case3 rev h₁ h₂ =>
      rw [trimEndRev.eq_3 rev h₁ h₂, trimEndRev.eq_3 rev h₁ h₂]

/-- A trimmed text ends in a separator only if it is the root. -/
theorem eq_nil_of_trimEndRev {rev rest : List Char} (h : trimEndRev rev = '/' :: rest) :
    rest = [] := by
  have hidem := trimEndRev_trimEndRev rev
  rw [h] at hidem
  cases rest with
  | nil => rfl
  | cons c rest =>
      rw [trimEndRev] at hidem
      have hlen := (trimEndRev_suffix (c :: rest)).length_le
      rw [hidem, List.length_cons, List.length_cons] at hlen
      omega

/-- Whether nothing stands at the end of a path without meaning. -/
def IsTrimmed (p : Path) : Prop := trimEnd p.text.toList = p.text.toList

variable {p q : Path}

/-- The directory of a path, by its text read backwards. -/
theorem parent?_eq_some_iff : p.parent? = some q ↔
    trimEndRev p.text.toList.reverse ≠ [] ∧ trimEndRev p.text.toList.reverse ≠ ['/'] ∧
      q.text.toList.reverse =
        trimEndRev ((trimEndRev p.text.toList.reverse).dropWhile (· ≠ '/')) := by
  unfold parent? parentOf?
  simp only [Bool.or_eq_true, decide_eq_true_eq]
  split
  · rename_i hnone
    constructor
    · intro h
      cases h
    · rintro ⟨hne, hroot, _⟩
      rcases hnone with h | h
      · exact absurd h hne
      · exact absurd h hroot
  · rename_i hsome
    rw [not_or] at hsome
    rw [Option.map_some, Option.some.injEq]
    constructor
    · rintro rfl
      refine ⟨hsome.1, hsome.2, ?_⟩
      rw [String.toList_ofList, List.reverse_reverse]
    · rintro ⟨_, _, hq⟩
      rw [← hq, List.reverse_reverse, String.ofList_toList]

theorem isTrimmed_of_parent? (h : p.parent? = some q) : q.IsTrimmed := by
  obtain ⟨_, _, hq⟩ := parent?_eq_some_iff.mp h
  rw [IsTrimmed, trimEnd, hq, trimEndRev_trimEndRev, ← hq, List.reverse_reverse]

/-- The text of the directory is the start of the path's text. -/
theorem prefix_of_parent? (h : p.parent? = some q) : q.text.toList <+: p.text.toList := by
  obtain ⟨_, _, hq⟩ := parent?_eq_some_iff.mp h
  rw [← List.reverse_suffix, hq]
  exact (trimEndRev_suffix _).trans ((List.dropWhile_suffix _).trans (trimEndRev_suffix _))

/-- A path and its directory start at the same place. -/
theorem isAbsolute_of_parent? (h : p.parent? = some q) (hq : q.text ≠ "") :
    q.isAbsolute = p.isAbsolute := by
  obtain ⟨rest, hrest⟩ := prefix_of_parent? h
  have hne : q.text.toList ≠ [] := fun hnil => hq (String.toList_eq_nil_iff.mp hnil)
  obtain ⟨c, cs, hcs⟩ := List.exists_cons_of_ne_nil hne
  rw [isAbsolute, isAbsolute, ← hrest, hcs]
  rfl

/-- A name is one piece. -/
theorem pieces_name {name : List Char} (h : ∀ c ∈ name, c ≠ '/') : pieces name = [name] := by
  unfold pieces
  induction name with
  | nil => rfl
  | cons c name ih =>
      obtain ⟨hc, hname⟩ := List.forall_mem_cons.mp h
      simp [Text.Search.splitWhere.eq_2 _ c, ih hname, hc]

end Path

namespace Store

/-! ### Steps -/

/-- The steps that characters spell. -/
def stepsOf (cs : List Char) : List String :=
  ((Path.pieces cs).filter fun p => !p.isEmpty).map String.ofList

theorem stepsOf_append (before after : List Char) :
    stepsOf (before ++ '/' :: after) = stepsOf before ++ stepsOf after := by
  unfold stepsOf Path.pieces
  rw [Text.Search.splitWhere_append_cons (by decide), List.filter_append, List.map_append]

theorem stepsOf_concat (before : List Char) : stepsOf (before ++ ['/']) = stepsOf before := by
  rw [stepsOf_append]
  exact List.append_nil _

/-- A name spells one step. -/
theorem stepsOf_name {name : List Char} (hne : name ≠ []) (h : ∀ c ∈ name, c ≠ '/') :
    stepsOf name = [String.ofList name] := by
  rw [stepsOf, Path.pieces_name h]
  cases name with
  | nil => exact absurd rfl hne
  | cons c name => rfl

/-- What is taken off at the end of a text spells no more than dots. -/
theorem stepsOf_trimEndRev (rev : List Char) :
    ∃ dots, stepsOf rev.reverse = stepsOf (Path.trimEndRev rev).reverse ++ dots := by
  induction rev using Path.trimEndRev.induct with
  | case1 c rest ih =>
      obtain ⟨dots, hdots⟩ := ih
      refine ⟨dots, ?_⟩
      rw [Path.trimEndRev, ← hdots, List.reverse_cons, stepsOf_concat]
  | case2 rest ih =>
      obtain ⟨dots, hdots⟩ := ih
      refine ⟨dots ++ ["."], ?_⟩
      rw [List.reverse_cons, stepsOf_concat] at hdots
      rw [Path.trimEndRev, ← List.append_assoc, ← hdots, List.reverse_cons, List.reverse_cons,
        List.append_assoc]
      exact stepsOf_append rest.reverse ['.']
  | case3 rev h₁ h₂ =>
      refine ⟨[], ?_⟩
      rw [Path.trimEndRev.eq_3 rev h₁ h₂, List.append_nil]

variable {s t : Store} {p q : Path}

/-- The steps to the directory of a path are the first of the path's steps, and more follow. -/
theorem steps_of_parent? (h : p.parent? = some q) (hq : q.text ≠ "") :
    ∃ more, more ≠ [] ∧ steps p.text = steps q.text ++ more := by
  obtain ⟨hne, hroot, htext⟩ := Path.parent?_eq_some_iff.mp h
  have hsteps (r : Path) : steps r.text = stepsOf r.text.toList.reverse.reverse := by
    rw [List.reverse_reverse]
    rfl
  rw [hsteps, hsteps, htext]
  obtain ⟨dots, hdots⟩ := stepsOf_trimEndRev p.text.toList.reverse
  rw [hdots]
  generalize hrev : Path.trimEndRev p.text.toList.reverse = rev at hne hroot htext
  -- The text up to its last separator, and the name after it.
  have hsplit := List.takeWhile_append_dropWhile (p := fun c => decide (c ≠ '/')) (l := rev)
  have hname : ∀ c ∈ (rev.takeWhile fun c => decide (c ≠ '/')).reverse, c ≠ '/' := by
    intro c hc
    have hall := List.all_takeWhile (l := rev) (p := fun c => decide (c ≠ '/'))
    exact of_decide_eq_true (List.all_eq_true.mp hall c (List.mem_reverse.mp hc))
  cases hdir : rev.dropWhile fun c => decide (c ≠ '/') with
  | nil =>
      rw [hdir, Path.trimEndRev.eq_3 [] nofun nofun, List.reverse_eq_nil_iff] at htext
      exact absurd (String.toList_eq_nil_iff.mp htext) hq
  | cons c dir =>
      obtain rfl : c = '/' := by
        have hc := List.head?_dropWhile_not (fun c => decide (c ≠ '/')) rev
        rw [hdir] at hc
        simpa using hc
      have hlast : (rev.takeWhile fun c => decide (c ≠ '/')).reverse ≠ [] := by
        intro hnil
        rw [List.reverse_eq_nil_iff.mp hnil, List.nil_append, hdir] at hsplit
        rw [← hsplit] at hrev hroot
        exact hroot (by rw [Path.eq_nil_of_trimEndRev hrev])
      obtain ⟨more, hmore⟩ := stepsOf_trimEndRev ('/' :: dir)
      rw [List.reverse_cons, stepsOf_concat] at hmore
      refine ⟨more ++ [String.ofList (rev.takeWhile fun c => decide (c ≠ '/')).reverse] ++ dots,
        by simp, ?_⟩
      have hwhole : stepsOf rev.reverse =
          stepsOf dir.reverse ++ stepsOf (rev.takeWhile fun c => decide (c ≠ '/')).reverse := by
        rw [← stepsOf_append]
        conv_lhs => rw [← hsplit, hdir, List.reverse_append, List.reverse_cons]
        rw [List.append_assoc]
        rfl
      rw [hwhole, stepsOf_name hlast hname, hmore]
      simp only [List.append_assoc]

/-! ### The way to the directory of a path -/

theorem isPath_of_parent? (h : p.parent? = some q) (hq : q.text ≠ "") (hp : IsPath p) :
    IsPath q := by
  obtain ⟨_, hnul, hsize⟩ := hp
  obtain ⟨rest, hrest⟩ := Path.prefix_of_parent? h
  refine ⟨hq, ?_, ?_⟩
  · rw [← hrest, Bool.eq_false_iff, ne_eq, List.contains_iff_mem, List.mem_append] at hnul
    rw [Bool.eq_false_iff, ne_eq, List.contains_iff_mem]
    exact fun hmem => hnul (.inl hmem)
  · have htext : p.text = q.text ++ String.ofList rest := by
      rw [← String.toList_inj, String.toList_append, String.toList_ofList, hrest]
    rw [htext, String.utf8ByteSize_append] at hsize
    omega

/-- The route to the directory of a path: the first part of the path's route, or that of the root. -/
theorem route_of_parent? (h : p.parent? = some q) (hq : q.text ≠ "") :
    (∃ more, more ≠ [] ∧ route p = route q ++ more) ∨
      (q.isAbsolute = true ∧ route q = ["."]) := by
  obtain ⟨more, hne, hmore⟩ := steps_of_parent? h hq
  cases hw : wantsDirectory q.text with
  | false =>
      refine .inl ⟨more ++ if wantsDirectory p.text then ["."] else [], by simp [hne], ?_⟩
      unfold route
      rw [hmore, hw, if_neg Bool.false_ne_true, List.append_nil, List.append_assoc]
  | true =>
      have htrim := Path.isTrimmed_of_parent? h
      obtain ⟨dir, hdir⟩ := List.getLast?_eq_some_iff.mp (of_decide_eq_true hw)
      have hrev : Path.trimEndRev q.text.toList.reverse = '/' :: dir.reverse := by
        rw [Path.IsTrimmed, Path.trimEnd, List.reverse_eq_iff] at htrim
        rw [htrim, hdir, List.reverse_append]
        rfl
      rw [List.reverse_eq_nil_iff.mp (Path.eq_nil_of_trimEndRev hrev)] at hdir
      refine .inr ⟨by rw [Path.isAbsolute, hdir]; rfl, ?_⟩
      unfold route steps
      rw [hw, hdir]
      rfl

/-- A walk that goes on is at a directory first. -/
theorem Leads.directory_of_append {fuel links : Nat} {here : Place} {first more : List String}
    {l : Located} (h : s.Leads true fuel links here (first ++ more) l) (hmore : more ≠ []) :
    ∃ x, s.Leads true fuel links here first (.at x .directory) := by
  generalize hsteps : first ++ more = rest at h
  induction h generalizing first with
  | here => exact absurd (List.append_eq_nil_iff.mp hsteps).2 hmore
  | dot _ ih =>
      cases first with
      | nil => exact ⟨_, .here⟩
      | cons name first =>
          obtain ⟨rfl, hrest⟩ := List.cons.inj hsteps
          obtain ⟨x, hx⟩ := ih hrest
          exact ⟨x, .dot hx⟩
  | up _ ih =>
      cases first with
      | nil => exact ⟨_, .here⟩
      | cons name first =>
          obtain ⟨rfl, hrest⟩ := List.cons.inj hsteps
          obtain ⟨x, hx⟩ := ih hrest
          exact ⟨x, .up hx⟩
  | free =>
      cases first with
      | nil => exact ⟨_, .here⟩
      | cons name first =>
          exact absurd (List.append_eq_nil_iff.mp (List.cons.inj hsteps).2).2 hmore
  | down hname hget _ ih =>
      cases first with
      | nil => exact ⟨_, .here⟩
      | cons name first =>
          obtain ⟨rfl, hrest⟩ := List.cons.inj hsteps
          obtain ⟨x, hx⟩ := ih hrest
          exact ⟨x, .down hname hget hx⟩
  | file =>
      cases first with
      | nil => exact ⟨_, .here⟩
      | cons name first =>
          exact absurd (List.append_eq_nil_iff.mp (List.cons.inj hsteps).2).2 hmore
  | link _ _ hfollow => cases hfollow
  | @jump _ _ _ _ _ target _ hname hget _ htext _ ih =>
      cases first with
      | nil => exact ⟨_, .here⟩
      | cons name first =>
          obtain ⟨rfl, rfl⟩ := List.cons.inj hsteps
          obtain ⟨x, hx⟩ := ih (List.append_assoc (steps target.text) first more)
          exact ⟨x, .jump hname hget (by simp) htext hx⟩

theorem isDirectory_iff :
    s.isDirectory p = true ↔ ∃ x, s.locate true p = .ok (.at x .directory) := by
  unfold isDirectory entry?
  rcases s.locate true p with e | ⟨x, e⟩ | ⟨directory, name⟩
  · simp
  · simp
  · simp

/-- The directory of a path that leads to anything is a directory. -/
theorem isDirectory_of_parent? {l : Located} (hl : s.locate true p = .ok l)
    (h : p.parent? = some q) (hq : q.text ≠ "") : s.isDirectory q = true := by
  obtain ⟨hp, hleads⟩ := locate_ok_iff.mp hl
  have hstart : s.start q = s.start p := by
    rw [start, start, Path.isAbsolute_of_parent? h hq]
  refine isDirectory_iff.mpr ?_
  rcases route_of_parent? h hq with ⟨more, hmore, hroute⟩ | ⟨_, hroute⟩
  · rw [hroute] at hleads
    obtain ⟨x, hx⟩ := hleads.directory_of_append hmore
    exact ⟨x, locate_ok_iff.mpr ⟨isPath_of_parent? h hq hp, hstart ▸ hx⟩⟩
  · refine ⟨s.start q, locate_ok_iff.mpr ⟨isPath_of_parent? h hq hp, ?_⟩⟩
    rw [hroute]
    exact .dot .here

/-! ### Directories that are there -/

/-- If a path leads to a directory, then something stands at its end. -/
theorem Leads.exists_at_noFollow {fuel links : Nat} {here x : Place} {rest : List String}
    (h : s.Leads true fuel links here rest (.at x .directory)) :
    ∃ y e, s.Leads false fuel links here rest (.at y e) := by
  generalize hl : Located.at x .directory = l at h
  induction h with
  | here => exact ⟨_, _, .here⟩
  | dot _ ih =>
      obtain ⟨y, e, h⟩ := ih hl
      exact ⟨y, e, .dot h⟩
  | up _ ih =>
      obtain ⟨y, e, h⟩ := ih hl
      exact ⟨y, e, .up h⟩
  | free => cases hl
  | down hname hget _ ih =>
      obtain ⟨y, e, h⟩ := ih hl
      exact ⟨y, e, .down hname hget h⟩
  | file => cases hl
  | link => cases hl
  | @jump _ _ _ name rest target _ hname hget _ htext _ ih =>
      obtain ⟨y, e, h⟩ := ih hl
      cases rest with
      | nil => exact ⟨_, _, .link hname hget rfl⟩
      | cons a rest => exact ⟨y, e, .jump hname hget rfl htext h⟩

/-- A directory that is there is not made. -/
theorem ensureDirectory_of_isDirectory (htrim : p.IsTrimmed) (h : s.isDirectory p = true) :
    s.ensureDirectory p = (s, none) := by
  obtain ⟨x, hl⟩ := isDirectory_iff.mp h
  obtain ⟨hp, hleads⟩ := locate_ok_iff.mp hl
  obtain ⟨y, e, hleads'⟩ := hleads.exists_at_noFollow
  have hcreate : s.create p .directory = .error .exists := by
    rw [create, htrim, String.ofList_toList, locate_ok_iff.mpr ⟨hp, hleads'⟩]
    rfl
  rw [ensureDirectory, hcreate, h]
  rfl

theorem createDirectories_of_isDirectory (htrim : p.IsTrimmed) (h : s.isDirectory p = true) :
    s.createDirectories p = (s, none) := by
  unfold createDirectories createDirectoriesWithin
  rw [ensureDirectory_of_isDirectory htrim h]
  split <;> rfl

end Store

end Trellis
