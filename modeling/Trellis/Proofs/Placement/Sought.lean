import Trellis.Proofs.Placement.LinkBack
import Trellis.Proofs.Source.Names
import Trellis.Proofs.Store.Arrivals
import Trellis.Proofs.Store.Grown

/-! # What the import of a test file finds

The specifier by which a test file imports its source leaves the extension out, and modules are sought
under several names in turn.

* `Path.trail` are the steps of a path without the dots among them. `Store.locate_join_iff`: what a name
  in a directory leads to depends on the place of the directory and on the name.
* `Placement.tried` lists the names under which a stem is sought, `Placement.preferred` those before the
  name of the source.
* `Placement.IsPlaced` says how a source stands in a store, `Placement.FindsSource` what the import of its
  target finds: what stands beside the source under the first of the names that is a file.
* `Placement.findsSource`: so it is for valid settings, and the source is found just if no preferred name
  is that of a file. `Placement.source_shadowed`: else it is another module. -/

namespace Trellis

/-! ### Trails -/

namespace Path

/-- The step that a component stands for. -/
def Component.step? : Component → Option String
  | root | current => none
  | parent => some ".."
  | normal name => some name

/-- The steps of a path without the dots among them. -/
def trail (p : Path) : List String := (Store.steps p.text).filter (· ≠ ".")

variable {p dir sub : Path} {name : String}

theorem step?_componentOf? (piece : List Char) :
    (componentOf? piece).bind Component.step? =
      if piece.isEmpty || String.ofList piece = "." then none else some (String.ofList piece) := by
  have hdot : String.ofList piece = "." ↔ piece = ['.'] := by
    rw [← String.toList_inj, String.toList_ofList]
    rfl
  unfold componentOf?
  by_cases hnil : piece = []
  · simp [hnil]
  · by_cases hone : piece = ['.']
    · simp [hone]
    · by_cases hup : piece = ['.', '.']
      · rw [hup]
        rfl
      · simp [hnil, hone, hup, hdot, Component.step?]

/-- The trail of a path are the steps of its components. -/
theorem trail_eq (p : Path) : p.trail = p.components.filterMap Component.step? := by
  have hleading : (leading p.text.toList).filterMap Component.step? = [] := by
    unfold leading
    split <;> rfl
  rw [components, componentsOf_eq, List.filterMap_append, hleading, List.nil_append, namesOf,
    List.filterMap_filterMap, trail]
  unfold Store.steps
  induction pieces p.text.toList with
  | nil => rfl
  | cons piece pieces ih =>
      rw [List.filterMap_cons, step?_componentOf?, ← ih, List.filter_cons]
      cases piece with
      | nil => rfl
      | cons c piece =>
          rw [if_pos (by simp), List.map_cons, List.filter_cons]
          generalize String.ofList (c :: piece) = step
          by_cases hdot : step = "." <;> simp [hdot]

/-- The trail of a path goes to its directory first. -/
theorem trail_of_fileName? (h : p.fileName? = some name) : p.trail = p.parent.trail ++ [name] := by
  rw [trail_eq, trail_eq, components_parent]
  conv_lhs => rw [← List.dropLast_append_getLast? _ (fileName?_eq_some_iff.mp h)]
  rw [List.filterMap_append]
  rfl

theorem steps_join (dir : Path) (h : sub.isAbsolute = false) :
    Store.steps (dir.join sub).text = Store.steps dir.text ++ Store.steps sub.text := by
  unfold join
  rw [h, if_neg Bool.false_ne_true]
  cases hlast : dir.text.toList.getLast? with
  | none =>
      have hdir : dir.text = "" := String.toList_eq_nil_iff.mp (List.getLast?_eq_none_iff.mp hlast)
      rw [hdir]
      rfl
  | some c =>
      obtain ⟨before, hbefore⟩ := List.getLast?_eq_some_iff.mp hlast
      have hsteps (q : Path) : Store.steps q.text = Store.stepsOf q.text.toList := rfl
      split
      · contradiction
      · rename_i heq
        cases heq
        rw [hsteps, hsteps, hsteps, String.toList_append, hbefore, Store.stepsOf_concat,
          List.append_assoc, List.singleton_append, Store.stepsOf_append]
      · rw [hsteps, hsteps, hsteps, String.toList_append, String.toList_append, List.append_assoc]
        exact Store.stepsOf_append _ _

/-- What is appended to a path that is put into a directory is appended to the whole. -/
theorem text_join_append (dir : Path) {before : String} (hne : before ≠ "")
    (h : (⟨before⟩ : Path).isAbsolute = false) (after : String) :
    (dir.join ⟨before ++ after⟩).text = (dir.join ⟨before⟩).text ++ after := by
  have hnil : before.toList ≠ [] := fun hnil => hne (String.toList_eq_nil_iff.mp hnil)
  have happend : (⟨before ++ after⟩ : Path).isAbsolute = false := by
    rw [isAbsolute, String.toList_append, List.head?_append_of_ne_nil _ hnil]
    exact h
  unfold join
  rw [h, happend, if_neg Bool.false_ne_true, if_neg Bool.false_ne_true]
  split
  · rfl
  · exact String.append_assoc.symm
  · exact String.append_assoc.symm

theorem trail_join (dir : Path) (h : sub.isAbsolute = false) :
    (dir.join sub).trail = dir.trail ++ sub.trail := by
  rw [trail, steps_join dir h, List.filter_append]
  rfl

theorem isAbsolute_iff : p.isAbsolute = true ↔ p.components.head? = some .root := by
  rw [components, componentsOf_eq, isAbsolute, decide_eq_true_eq]
  constructor
  · intro h
    obtain ⟨rest, hrest⟩ := List.head?_eq_some_iff.mp h
    rw [hrest]
    rfl
  · intro h
    unfold leading at h
    split at h
    · next hs => rw [hs]; rfl
    · cases h
    · cases h
    · -- What follows the start of a path is no root.
      have hmem := List.mem_of_mem_head? h
      rcases name_or_parent_of_mem_namesOf hmem with ⟨_, heq⟩ | ⟨heq, _⟩ <;> cases heq

theorem isAbsolute_parent (h : p.fileName? = some name) : p.parent.isAbsolute = p.isAbsolute := by
  rw [Bool.eq_iff_iff, isAbsolute_iff, isAbsolute_iff, components_parent]
  conv_rhs => rw [← List.dropLast_append_getLast? _ (fileName?_eq_some_iff.mp h)]
  cases p.components.dropLast with
  | nil => simp
  | cons x xs => simp

end Path

/-! ### Names in a directory -/

namespace Store

variable {s : Store} {p dir : Path} {name : String} {links : Nat} {x : Place} {l : Located}

/-- Whether a text is the name of something in a directory. -/
structure IsFileName (name : String) : Prop where
  /-- It is not empty. -/
  ne_empty : name ≠ ""
  /-- It is not the directory itself. -/
  ne_dot : name ≠ "."
  /-- It is not the directory above. -/
  ne_up : name ≠ ".."
  /-- It does not go down further. -/
  slash : ∀ c ∈ name.toList, c ≠ '/'

theorem isAbsolute_name (hslash : ∀ c ∈ name.toList, c ≠ '/') :
    (⟨name⟩ : Path).isAbsolute = false := by
  rw [Path.isAbsolute, decide_eq_false_iff_not]
  exact fun hhead => hslash '/' (List.mem_of_mem_head? hhead) rfl

/-- A name is a component, and that of the path to it. -/
theorem IsFileName.fileName? (h : IsFileName name) :
    (⟨name⟩ : Path).fileName? = some name ∧ ∀ dir : Path, (dir.join ⟨name⟩).fileName? = some name := by
  have hcomponent : Path.componentOf? name.toList = some (.normal name) := by
    rw [Path.componentOf?, if_neg, if_neg, String.ofList_toList]
    · exact fun heq => h.ne_up (String.toList_inj.mp heq)
    · rw [Bool.or_eq_true, decide_eq_true_eq, decide_eq_true_eq, String.toList_eq_nil_iff]
      exact fun heq => heq.elim h.ne_empty fun heq => h.ne_dot (String.toList_inj.mp heq)
  have hname : (⟨name⟩ : Path).components = [.normal name] :=
    Path.componentsOf_name h.slash hcomponent
  refine ⟨?_, fun dir => ?_⟩
  · rw [Path.fileName?, hname]
    rfl
  · rw [Path.fileName?, Path.components_join_name dir h.slash hcomponent, List.getLast?_concat]

/-- The route to a name in a directory ends with the name. -/
theorem route_join (dir : Path) (hne : name ≠ "") (hslash : ∀ c ∈ name.toList, c ≠ '/') :
    route (dir.join ⟨name⟩) = steps dir.text ++ [name] := by
  have hnil : name.toList ≠ [] := fun h => hne (String.toList_eq_nil_iff.mp h)
  have hsteps : steps name = [name] := by
    have h := stepsOf_name hnil hslash
    rwa [String.ofList_toList] at h
  have hlast : wantsDirectory (dir.join ⟨name⟩).text = false := by
    rw [wantsDirectory, Path.getLast?_join dir hne, decide_eq_false_iff_not]
    exact fun hlast => hslash '/' (List.mem_of_getLast? hlast) rfl
  rw [route, hlast, if_neg Bool.false_ne_true, List.append_nil,
    Path.steps_join dir (isAbsolute_name hslash), hsteps]

theorem start_join (s : Store) (dir : Path) (hslash : ∀ c ∈ name.toList, c ≠ '/') :
    s.start (dir.join ⟨name⟩) = s.start dir := by
  rw [start, start, Path.isAbsolute_join dir (isAbsolute_name hslash)]

/-- What a name in a directory leads to, by the place of the directory. -/
theorem locate_join_iff (hs : s.HasShortLinks) (hname : IsFileName name)
    (hpath : IsPath (dir.join ⟨name⟩))
    (hdir : s.Brings linkLimit (s.start dir) dir.trail links x) :
    s.locate true (dir.join ⟨name⟩) = .ok l ↔ s.Arrives links x [name] l := by
  rw [locate_iff_arrives hs, start_join s dir hname.slash, route_join dir hname.ne_empty hname.slash,
    and_iff_right hpath, ← arrives_filter (List.cons_ne_nil _ _)]
  exact hdir _ (List.cons_ne_nil _ _) l

/-- The place of the directory of a path. -/
def home? (s : Store) (p : Path) : Option Place :=
  match s.locate true (p.parent.join ⟨"."⟩) with
  | .ok (.at x .directory) => some x
  | _ => none

/-- The steps of a route without the dots among them are the trail. -/
theorem filter_route (p : Path) : (route p).filter (· ≠ ".") = p.trail := by
  rw [route, Path.trail, List.filter_append]
  split <;> simp

/-- The route to a file does not end with a dot. -/
theorem exists_trail_of_file {c : Content} (hs : s.HasShortLinks)
    (hl : s.locate true p = .ok (.at x (.file c))) : ∃ before last, route p = before ++ [last] ∧
      last ≠ "." ∧ p.trail = before.filter (· ≠ ".") ++ [last] := by
  obtain ⟨-, hroute⟩ := (locate_iff_arrives hs).mp hl
  rcases List.eq_nil_or_concat (route p) with hnil | ⟨before, last, hconcat⟩
  · rw [hnil, arrives_nil] at hroute
    cases hroute
  · rw [List.concat_eq_append] at hconcat
    have hdot : last ≠ "." := by
      rintro rfl
      rw [hconcat] at hroute
      obtain ⟨z, hz⟩ := eq_directory_of_arrives (.inl rfl) hroute
      cases hz
    refine ⟨before, last, hconcat, hdot, ?_⟩
    rw [← filter_route, hconcat, List.filter_append, List.filter_cons_of_pos (by simpa using hdot)]
    rfl

/-- A file stands in the directory of its path. -/
theorem exists_brings_of_home? (hs : s.HasShortLinks) (hname : p.fileName? = some name)
    (hhome : s.home? p = some x) (hfile : s.isFile p = true) : ∃ links,
      s.Brings linkLimit (s.start p) p.parent.trail links x ∧
        ∀ l, s.locate true p = .ok l ↔ s.Arrives links x [name] l := by
  obtain ⟨y, c, hl⟩ := isFile_iff.mp hfile
  obtain ⟨hpath, -⟩ := (locate_iff_arrives hs).mp hl
  obtain ⟨before, last, hlast, -, htrail⟩ := exists_trail_of_file hs hl
  obtain ⟨htrail, rfl⟩ : before.filter (· ≠ ".") = p.parent.trail ∧ last = name := by
    rw [Path.trail_of_fileName? hname] at htrail
    obtain ⟨hbefore, hlast⟩ := List.append_inj' htrail.symm rfl
    exact ⟨hbefore, (List.cons.inj hlast).1⟩
  have harrives (l : Located) : s.locate true p = .ok l ↔
      s.Arrives linkLimit (s.start p) (p.parent.trail ++ [last]) l := by
    rw [locate_iff_arrives hs, and_iff_right hpath, hlast, ← arrives_filter (List.cons_ne_nil _ _),
      htrail]
  obtain ⟨links, z, hz⟩ := exists_brings ((harrives _).mp hl) (List.cons_ne_nil _ _)
  have hx : x = z := by
    unfold home? at hhome
    split at hhome
    · next hdir =>
      cases hhome
      obtain ⟨-, hdir⟩ := (locate_iff_arrives hs).mp hdir
      have hslash : ∀ c ∈ ".".toList, c ≠ '/' := by simp
      rw [start_join s _ hslash, route_join _ (by decide) hslash, start,
        Path.isAbsolute_parent hname, ← arrives_filter (List.cons_ne_nil _ _)] at hdir
      have hdot := (hz _ (List.cons_ne_nil _ _) _).mp hdir
      cases arrives_nil.mp (arrives_dot.mp hdot)
      rfl
    · cases hhome
  subst hx
  exact ⟨links, hz, fun l => (harrives l).trans (hz _ (List.cons_ne_nil _ _) l)⟩

end Store

/-! ### The way back -/

namespace Placement

open Store (IsFileName IsPath)

section way
variable {c : Config} {policy : Policy} {source : Path} {st : Store} {ext name : String}

/-- The names that lead down to the test directory. -/
def Policy.names (policy : Policy) : List String := (policy.directory.map Path.trail).getD []

/-- The text that goes back from the test directory. -/
def Policy.wayBack (policy : Policy) : String :=
  let up := (policy.directory.map depth).getD 0
  if up = 0 then "./" else String.join (List.replicate up "../")

/-- The directory of a source as seen from its target. -/
def Policy.back (policy : Policy) (source : Path) : Path :=
  (policy.targetPath source).parent.join ⟨policy.wayBack⟩

/-- A relative path goes down as far as its trail is long, if it never goes up. -/
theorem depth_eq {p : Path} (h : .parent ∉ p.components) : depth p = p.trail.length := by
  rw [depth, Path.trail_eq]
  generalize p.components = cs at h ⊢
  induction cs with
  | nil => rfl
  | cons x xs ih =>
      have hrest := ih fun hmem => h (List.mem_cons_of_mem _ hmem)
      cases x with
      | root => exact hrest
      | current => exact hrest
      | parent => exact absurd List.mem_cons_self h
      | normal name =>
          have hname : Path.Component.step? (.normal name) = some name := rfl
          rw [List.filter_cons_of_pos rfl, List.filterMap_cons_some hname, List.length_cons,
            List.length_cons, hrest]

theorem depth_directory_eq (hvalid : c.isValid = true) :
    ((Policy.ofConfig c.generation).directory.map depth).getD 0 =
      (Policy.ofConfig c.generation).names.length := by
  rw [Policy.names]
  cases hd : (Policy.ofConfig c.generation).directory with
  | none => rfl
  | some sub =>
      refine depth_eq fun hmem => ?_
      rw [Path.components, Path.componentsOf_eq, List.mem_append] at hmem
      rcases hmem with hmem | hmem
      · unfold Path.leading at hmem
        split at hmem <;> simp at hmem
      · obtain ⟨name, hname⟩ := names_of_directory hvalid hd _ hmem
        cases hname

theorem trail_wayBack (hvalid : c.isValid = true) :
    (⟨(Policy.ofConfig c.generation).wayBack⟩ : Path).trail =
      List.replicate (Policy.ofConfig c.generation).names.length ".." := by
  have hstep (n : Nat) : Store.stepsOf (String.join (List.replicate n "../")).toList =
      List.replicate n ".." := by
    induction n with
    | zero => rfl
    | succ n ih =>
        rw [List.replicate_succ, String.join_cons, String.toList_append, List.replicate_succ, ← ih]
        exact Store.stepsOf_append ['.', '.'] _
  rw [Policy.wayBack, depth_directory_eq hvalid, Path.trail]
  dsimp only
  split
  · next hzero =>
    rw [hzero]
    rfl
  · rw [Store.steps]
    change (Store.stepsOf _).filter _ = _
    rw [hstep, List.filter_eq_self]
    intro step hstep
    rw [List.eq_of_mem_replicate hstep]
    decide

theorem isAbsolute_wayBack (policy : Policy) : (⟨policy.wayBack⟩ : Path).isAbsolute = false := by
  rw [Path.isAbsolute, decide_eq_false_iff_not, Policy.wayBack]
  dsimp only
  cases (policy.directory.map depth).getD 0 with
  | zero => simp
  | succ n =>
      rw [if_neg (Nat.succ_ne_zero n), List.replicate_succ, String.join_cons, String.toList_append]
      simp

theorem isAbsolute_fileName (policy : Policy) (hext : source.extension? = some ext) :
    (⟨policy.fileName source⟩ : Path).isAbsolute = false := by
  obtain ⟨before, hne, hslash, -, hname⟩ := fileName_toList policy hext
  rw [Path.isAbsolute, decide_eq_false_iff_not]
  dsimp only
  rw [hname, List.append_assoc, List.head?_append_of_ne_nil _ hne]
  exact fun hhead => hslash '/' (List.mem_of_mem_head? hhead) rfl

section back
variable (hvalid : c.isValid = true) (hext : source.extension? = some ext)
include hvalid hext

/-- The way back to a source goes down to its target and up again. -/
theorem trail_back : ((Policy.ofConfig c.generation).back source).trail =
    source.parent.trail ++ ((Policy.ofConfig c.generation).names ++
      List.replicate (Policy.ofConfig c.generation).names.length "..") := by
  have hp := Policy.isValid_ofConfig hvalid
  have hparent : ((Policy.ofConfig c.generation).targetPath source).parent.trail =
      ((Policy.ofConfig c.generation).targetDir source).trail := by
    rw [Path.trail_eq, Path.trail_eq, Path.components_parent, components_targetPath hp hext,
      List.dropLast_concat, components_targetDir hp]
  have hdir : ((Policy.ofConfig c.generation).targetDir source).trail =
      source.parent.trail ++ (Policy.ofConfig c.generation).names := by
    rw [Policy.targetDir, Policy.names]
    cases hd : (Policy.ofConfig c.generation).directory with
    | none => exact (List.append_nil _).symm
    | some sub => exact Path.trail_join _ (hp.directory sub hd)
  rw [Policy.back, Path.trail_join _ (isAbsolute_wayBack _), trail_wayBack hvalid, hparent, hdir,
    List.append_assoc]

theorem start_back (st : Store) : st.start ((Policy.ofConfig c.generation).back source) =
    st.start source := by
  have hp := Policy.isValid_ofConfig hvalid
  obtain ⟨hfile, -⟩ := extension?_targetPath hp hext
  obtain ⟨name, _, hname, _⟩ := Path.extension?_eq_some_iff.mp hext
  have hdir : ((Policy.ofConfig c.generation).targetDir source).isAbsolute = source.isAbsolute := by
    rw [← Path.isAbsolute_parent hname, Policy.targetDir]
    cases hd : (Policy.ofConfig c.generation).directory with
    | none => rfl
    | some sub => exact Path.isAbsolute_join _ (hp.directory sub hd)
  rw [Store.start, Store.start, Policy.back, Path.isAbsolute_join _ (isAbsolute_wayBack _),
    Path.isAbsolute_parent hfile, Policy.targetPath, Path.isAbsolute_join _ (isAbsolute_fileName _ hext),
    hdir]

end back

/-! ### Names that are tried -/

/-- The names beside a source under which a specifier with its stem is tried, in order. -/
def tried (stem : String) : List String :=
  (if (Dialect.ofPath? ⟨stem⟩).isSome then [stem] else []) ++ Store.moduleEndings.map (stem ++ ·)

/-- The names that are tried before that of the source. -/
def preferred (source : Path) : List String :=
  (tried source.stem).takeWhile (· ≠ source.fileName?.getD "")

/-- Whether a source stands in a store as the import of its target needs it. -/
structure IsPlaced (st : Store) (policy : Policy) (source : Path) : Prop where
  /-- Its extension is one of those with components. -/
  extension : ∃ ext ∈ ["tsx", "jsx", "js"], source.extension? = some ext
  /-- It is a file. -/
  isFile : st.isFile source = true
  /-- Directories that are no links lead down to the directory of the target. -/
  directory : ∃ x, st.home? source = some x ∧ st.Descends x policy.names
  /-- The paths that are tried are not too long. -/
  isPath : ∀ dir ∈ [source.parent, policy.back source], IsPath (dir.join ⟨source.stem ++ ".d.ts"⟩)

/-- What the import of a target finds. -/
structure FindsSource (st : Store) (policy : Policy) (source : Path) : Prop where
  /-- It is what stands beside the source under the first name that is a file. -/
  resolved : st.resolve? (policy.targetPath source) (policy.importPath source) =
    ((tried source.stem).find? fun name => st.isFile (source.parent.join ⟨name⟩)).map
      fun name => (policy.back source).join ⟨name⟩
  /-- What is found under a name is what stands beside the source. -/
  beside : ∀ name ∈ tried source.stem, ∀ l,
    st.locate true ((policy.back source).join ⟨name⟩) = .ok l ↔
      st.locate true (source.parent.join ⟨name⟩) = .ok l
  /-- It is found under the name of the source just if no preferred name is that of a file. -/
  unshadowed : ∀ own ∈ source.fileName?,
    st.resolve? (policy.targetPath source) (policy.importPath source) =
        some ((policy.back source).join ⟨own⟩) ↔
      ∀ name ∈ preferred source, st.isFile (source.parent.join ⟨name⟩) = false
  /-- What is found under the name of the source is the source. -/
  same : ∀ own ∈ source.fileName?, ∀ l,
    st.locate true ((policy.back source).join ⟨own⟩) = .ok l ↔ st.locate true source = .ok l
  /-- The source is loaded if no preferred name is that of a file. -/
  loaded : (∀ name ∈ preferred source, st.isFile (source.parent.join ⟨name⟩) = false) →
    ∀ own ∈ source.fileName?, ∀ m, Source.load st source = .ok m →
      st.lookup (policy.targetPath source) (policy.importPath source) =
        .found { m with path := (policy.back source).join ⟨own⟩ }

/-- The name of a source is its stem and its extension. -/
theorem name_of_extension (hext : source.extension? = some ext) :
    source.fileName? = some (source.stem ++ "." ++ ext) ∧ source.stem ≠ "" ∧
      (∀ c ∈ source.stem.toList, c ≠ '/') ∧ ∀ c ∈ ext.toList, c ≠ '/' := by
  obtain ⟨name, before, hname, hsplit, hne, hdots⟩ := Path.extension?_eq_some_iff.mp hext
  have hstem : source.stem.toList = before := by
    rw [Path.stem_eq hname (Path.splitName?_eq_some_iff.mpr ⟨hsplit, hne, hdots⟩),
      String.toList_ofList]
  have hslash := Path.ne_of_mem_components
    (List.mem_of_getLast? (Path.fileName?_eq_some_iff.mp hname))
  rw [hsplit] at hslash
  have hwhole : name = source.stem ++ "." ++ ext := by
    rw [← String.toList_inj, hsplit, String.toList_append, String.toList_append, hstem,
      List.append_assoc]
    rfl
  refine ⟨hname.trans (congrArg some hwhole), fun hempty => hne ?_, fun c hc => ?_, fun c hc => ?_⟩
  · rw [← hstem, hempty]
    rfl
  · exact hslash c (List.mem_append_left _ (hstem ▸ hc))
  · exact hslash c (List.mem_append_right _ (List.mem_cons_of_mem _ hc))

section tried
variable {stem : String} (hne : stem ≠ "") (hslash : ∀ c ∈ stem.toList, c ≠ '/')
include hne hslash

/-- A stem with a dialect is a name in a directory. -/
theorem isFileName_stem {d : Dialect} (h : Dialect.ofPath? ⟨stem⟩ = some d) : IsFileName stem := by
  refine ⟨hne, ?_, ?_, hslash⟩
  · rintro rfl
    cases h
  · rintro rfl
    cases h

/-- All that is tried are names in a directory, with endings of four characters at most. -/
theorem isFileName_of_mem_tried (h : name ∈ tried stem) : IsFileName name := by
  rcases List.mem_append.mp h with h | h
  · split at h
    · next hsome =>
      obtain ⟨d, hd⟩ := Option.isSome_iff_exists.mp hsome
      rw [List.mem_singleton.mp h]
      exact isFileName_stem hne hslash hd
    · cases h
  · obtain ⟨ending, hending, rfl⟩ := List.mem_map.mp h
    have hcheck : ∀ e ∈ Store.moduleEndings, 1 < e.toList.length ∧ '/' ∉ e.toList := by decide
    obtain ⟨hlength, hchars⟩ := hcheck ending hending
    have hpos := List.length_pos_of_ne_nil fun h => hne (String.toList_eq_nil_iff.mp h)
    have hlong : 2 < (stem ++ ending).toList.length := by
      rw [String.toList_append, List.length_append]
      omega
    have hshort {text : String} (htext : text.toList.length ≤ 2) : stem ++ ending ≠ text := by
      rintro rfl
      exact absurd htext (Nat.not_le.mpr hlong)
    refine ⟨hshort (by decide), hshort (by decide), hshort (by decide), fun c hc => ?_⟩
    rw [String.toList_append, List.mem_append] at hc
    exact hc.elim (hslash c) fun hmem => ne_of_mem_of_not_mem hmem hchars

/-- What is tried is not longer than the longest ending makes it. -/
theorem isPath_of_mem_tried {dir : Path} (hpath : IsPath (dir.join ⟨stem ++ ".d.ts"⟩))
    (h : name ∈ tried stem) : IsPath (dir.join ⟨name⟩) := by
  have htext := Path.text_join_append dir hne (Store.isAbsolute_name hslash)
  have hmem : ∃ e ∈ "" :: Store.moduleEndings, name = stem ++ e := by
    rcases List.mem_append.mp h with h | h
    · split at h
      · exact ⟨"", List.mem_cons_self, (List.mem_singleton.mp h).trans String.append_empty.symm⟩
      · cases h
    · obtain ⟨e, he, rfl⟩ := List.mem_map.mp h
      exact ⟨e, List.mem_cons_of_mem _ he, rfl⟩
  obtain ⟨e, he, rfl⟩ := hmem
  have hcheck : ∀ e ∈ "" :: Store.moduleEndings, e.utf8ByteSize ≤ ".d.ts".utf8ByteSize ∧
      e.toList.contains (Char.ofNat 0) = false := by
    decide
  obtain ⟨hsize, hnul⟩ := hcheck e he
  obtain ⟨-, hnul', hsize'⟩ := hpath
  rw [htext, String.toList_append, List.contains_eq_mem, decide_eq_false_iff_not, List.mem_append,
    not_or] at hnul'
  rw [htext, String.utf8ByteSize_append] at hsize'
  refine ⟨fun hempty => ?_, ?_, ?_⟩
  · refine Path.text_join_ne_empty dir ?_ hempty
    exact fun hname => hne (String.append_eq_empty_iff.mp hname).1
  · rw [htext, String.toList_append, List.contains_eq_mem, decide_eq_false_iff_not, List.mem_append,
      not_or]
    refine ⟨hnul'.1, fun hmem => ?_⟩
    rw [List.contains_eq_mem, decide_eq_false_iff_not] at hnul
    exact hnul hmem
  · rw [htext, String.utf8ByteSize_append]
    omega

/-- A stem is not found as a file itself unless it has a dialect of its own. -/
theorem find?_base (hs : st.HasShortLinks) (dir : Path) :
    (if (Dialect.ofPath? (dir.join ⟨stem⟩)).isSome then [dir.join ⟨stem⟩] else []).find? st.isFile =
      ((if (Dialect.ofPath? ⟨stem⟩).isSome then [stem] else []).map fun name =>
        dir.join ⟨name⟩).find? st.isFile := by
  by_cases hdots : stem = "." ∨ stem = ".."
  · -- Such a path leads to a directory.
    have hfile : st.isFile (dir.join ⟨stem⟩) = false := by
      rw [Bool.eq_false_iff]
      intro hfile
      obtain ⟨place, content, hl⟩ := Store.isFile_iff.mp hfile
      obtain ⟨-, harrives⟩ := (Store.locate_iff_arrives hs).mp hl
      rw [Store.route_join dir hne hslash] at harrives
      obtain ⟨z, hz⟩ := Store.eq_directory_of_arrives hdots harrives
      cases hz
    have hdialect : Dialect.ofPath? ⟨stem⟩ = none := by
      rcases hdots with hdots | hdots <;> rw [hdots] <;> rfl
    rw [hdialect]
    split
    · rw [List.find?_cons_of_neg (by simp [hfile])]
      rfl
    · rfl
  · rw [not_or] at hdots
    have hstem : IsFileName stem := ⟨hne, hdots.1, hdots.2, hslash⟩
    have hdialect : Dialect.ofPath? (dir.join ⟨stem⟩) = Dialect.ofPath? ⟨stem⟩ := by
      rw [Dialect.ofPath?, Dialect.ofPath?, Path.extension?, Path.extension?, hstem.fileName?.2,
        hstem.fileName?.1]
    rw [hdialect]
    split <;> rfl

end tried

/-! ### What is found -/

theorem wayBack_ne_empty (policy : Policy) : policy.wayBack ≠ "" := by
  rw [Policy.wayBack]
  cases (policy.directory.map depth).getD 0 with
  | zero => simp
  | succ n =>
      rw [if_neg (Nat.succ_ne_zero n), List.replicate_succ, String.join_cons]
      intro h
      have hempty := (String.append_eq_empty_iff.mp h).1
      exact absurd hempty (by decide)

theorem getLast?_wayBack (policy : Policy) : policy.wayBack.toList.getLast? = some '/' := by
  rw [Policy.wayBack]
  cases (policy.directory.map depth).getD 0 with
  | zero => rfl
  | succ n =>
      rw [if_neg (Nat.succ_ne_zero n)]
      induction n with
      | zero => rfl
      | succ n ih =>
          rw [List.replicate_succ, String.join_cons, String.toList_append]
          rw [List.getLast?_append_of_ne_nil, ih]
          intro hnil
          rw [hnil] at ih
          cases ih

/-- A name is put behind the way back. -/
theorem text_back_join (policy : Policy) (source : Path)
    (hrel : (⟨name⟩ : Path).isAbsolute = false) :
    ((policy.back source).join ⟨name⟩).text = (policy.back source).text ++ name := by
  have hlast : (policy.back source).text.toList.getLast? = some '/' := by
    have hback : (⟨policy.wayBack⟩ : Path).text ≠ "" := wayBack_ne_empty policy
    exact (Path.getLast?_join _ hback).trans (getLast?_wayBack policy)
  rw [Path.join, hrel, if_neg Bool.false_ne_true, hlast]
  rfl

/-- The specifier leads back, and then to the stem. -/
theorem join_importPath (policy : Policy) (hslash : ∀ c ∈ source.stem.toList, c ≠ '/') :
    (policy.targetPath source).parent.join ⟨policy.importPath source⟩ =
      (policy.back source).join ⟨source.stem⟩ := by
  have himport : policy.importPath source = policy.wayBack ++ source.stem := rfl
  have htext : ((policy.targetPath source).parent.join ⟨policy.importPath source⟩).text =
      ((policy.back source).join ⟨source.stem⟩).text := by
    rw [text_back_join policy source (Store.isAbsolute_name hslash), himport,
      Path.text_join_append _ (wayBack_ne_empty policy) (isAbsolute_wayBack policy)]
    rfl
  exact congrArg Path.mk htext

theorem startsWith_importPath (policy : Policy) (source : Path) :
    Text.startsWith (policy.importPath source) "." = true := by
  have himport : policy.importPath source = policy.wayBack ++ source.stem := rfl
  rw [Text.startsWith, himport, String.toList_append, Policy.wayBack]
  cases (policy.directory.map depth).getD 0 with
  | zero => rfl
  | succ n =>
      rw [if_neg (Nat.succ_ne_zero n), List.replicate_succ, String.join_cons, String.toList_append]
      rfl

/-- The first value with a property is a given one that has it, if none before it has. -/
theorem find?_eq_some_iff_takeWhile {α : Type} [DecidableEq α] {f : α → Bool} {a : α} {as : List α}
    (ha : a ∈ as) (hf : f a = true) :
    as.find? f = some a ↔ ∀ b ∈ as.takeWhile (· ≠ a), f b = false := by
  induction as with
  | nil => cases ha
  | cons b as ih =>
      by_cases hb : b = a
      · subst hb
        simp [hf]
      · have hmem := (List.mem_cons.mp ha).resolve_left (Ne.symm hb)
        rw [List.takeWhile_cons_of_pos (by simpa using hb), List.forall_mem_cons, ← ih hmem]
        cases hfb : f b with
        | true => simp [hfb, hb]
        | false => simp [hfb]

/-- What is loaded is the same at two paths that lead to the same and have one extension. -/
theorem load_of_locate {p q : Path} {m : Source} (hext : p.extension? = q.extension?)
    (hl : ∀ l, st.locate true p = .ok l ↔ st.locate true q = .ok l) (h : Source.load st q = .ok m) :
    Source.load st p = .ok { m with path := p } := by
  have hdialect : Dialect.ofPath? p = Dialect.ofPath? q := by
    rw [Dialect.ofPath?, Dialect.ofPath?, hext]
  unfold Source.load Source.dialectOf at h ⊢
  rw [hdialect]
  cases hd : Dialect.ofPath? q with
  | none =>
      rw [hd] at h
      cases h
  | some d =>
      rw [hd] at h
      simp only [bind, Except.bind] at h ⊢
      cases ht : Source.textAt st q d with
      | error e =>
          rw [ht] at h
          cases h
      | ok found =>
          obtain ⟨d', t⟩ := found
          rw [ht] at h
          obtain ⟨rfl, hread⟩ := Source.textAt_ok ht
          obtain ⟨place, hplace⟩ := Store.read_ok_iff.mp hread
          have hp := (hl _).mpr hplace
          have htext : Source.textAt st p d' = .ok (d', t) := by
            unfold Source.textAt
            rw [Store.isFile_iff.mpr ⟨_, _, hp⟩,
              Store.readText_ok_iff.mpr (Store.read_ok_iff.mpr ⟨_, hp⟩)]
            rfl
          rw [htext]
          dsimp only at h ⊢
          unfold Source.parse at h ⊢
          cases htree : Syntax.parse? d' t with
          | none =>
              rw [htree] at h
              cases h
          | some tree =>
              rw [htree] at h
              cases h
              rfl

/-- The name of a source is one of those that are tried. -/
theorem IsPlaced.own_mem_tried (h : IsPlaced st policy source) {own : String}
    (hown : own ∈ source.fileName?) :
    own ∈ tried source.stem := by
  obtain ⟨ext, hmem, hext⟩ := h.extension
  obtain ⟨hname, -⟩ := name_of_extension hext
  rw [hname, Option.mem_some] at hown
  have hending : "." ++ ext ∈ Store.moduleEndings := by
    simp only [List.mem_cons, List.not_mem_nil, or_false] at hmem
    rcases hmem with rfl | rfl | rfl <;> decide
  rw [← hown, String.append_assoc]
  exact List.mem_append_right _ (List.mem_map_of_mem hending)

section finds
variable (hvalid : c.isValid = true) (hs : st.HasShortLinks)
  (h : IsPlaced st (Policy.ofConfig c.generation) source)
include hvalid hs h

/-- The directory of a source and the way back from its target lead to one place, where the source
stands. -/
theorem IsPlaced.exists_brings : ∃ links x,
    (∀ dir ∈ [source.parent, (Policy.ofConfig c.generation).back source],
      st.Brings Store.linkLimit (st.start dir) dir.trail links x) ∧
    ∀ own ∈ source.fileName?, ∀ l, st.locate true source = .ok l ↔ st.Arrives links x [own] l := by
  obtain ⟨ext, -, hext⟩ := h.extension
  obtain ⟨hname, -⟩ := name_of_extension hext
  obtain ⟨x, hhome, hdescends⟩ := h.directory
  obtain ⟨links, hbrings, hown⟩ := Store.exists_brings_of_home? hs hname hhome h.isFile
  refine ⟨links, x, fun dir hdir => ?_, fun own hown' l => ?_⟩
  · rcases List.mem_pair.mp hdir with rfl | rfl
    · rw [Store.start, Path.isAbsolute_parent hname]
      exact hbrings
    · rw [start_back hvalid hext, trail_back hvalid hext]
      exact hbrings.trans (hdescends.brings_back links)
  · rw [hname, Option.mem_some] at hown'
    rw [← hown']
    exact hown l

/-- What is tried stands in the directory of the source. -/
theorem IsPlaced.beside (hname : name ∈ tried source.stem) (l : Store.Located) :
    st.locate true (((Policy.ofConfig c.generation).back source).join ⟨name⟩) = .ok l ↔
      st.locate true (source.parent.join ⟨name⟩) = .ok l := by
  obtain ⟨ext, -, hext⟩ := h.extension
  obtain ⟨-, hne, hslash, -⟩ := name_of_extension hext
  obtain ⟨links, x, hbrings, -⟩ := h.exists_brings hvalid hs
  have hfile := isFileName_of_mem_tried hne hslash hname
  have hlocate (dir : Path)
      (hdir : dir ∈ [source.parent, (Policy.ofConfig c.generation).back source]) :
      st.locate true (dir.join ⟨name⟩) = .ok l ↔ st.Arrives links x [name] l :=
    Store.locate_join_iff hs hfile (isPath_of_mem_tried hne hslash (h.isPath dir hdir) hname)
      (hbrings dir hdir)
  rw [hlocate _ (by simp), hlocate _ (by simp)]

/-- What is found under the name of a source is the source. -/
theorem IsPlaced.same {own : String} (hown : own ∈ source.fileName?) (l : Store.Located) :
    st.locate true (((Policy.ofConfig c.generation).back source).join ⟨own⟩) = .ok l ↔
      st.locate true source = .ok l := by
  obtain ⟨ext, -, hext⟩ := h.extension
  obtain ⟨-, hne, hslash, -⟩ := name_of_extension hext
  obtain ⟨links, x, hbrings, hsource⟩ := h.exists_brings hvalid hs
  have hmem := h.own_mem_tried hown
  have hdir : (Policy.ofConfig c.generation).back source ∈
      [source.parent, (Policy.ofConfig c.generation).back source] := by simp
  rw [hsource own hown l]
  exact Store.locate_join_iff hs (isFileName_of_mem_tried hne hslash hmem)
    (isPath_of_mem_tried hne hslash (h.isPath _ hdir) hmem) (hbrings _ hdir)

/-- The specifier finds what stands beside the source under the first name that is a file. -/
theorem IsPlaced.resolved :
    st.resolve? ((Policy.ofConfig c.generation).targetPath source)
        ((Policy.ofConfig c.generation).importPath source) =
      ((tried source.stem).find? fun name => st.isFile (source.parent.join ⟨name⟩)).map
        fun name => ((Policy.ofConfig c.generation).back source).join ⟨name⟩ := by
  obtain ⟨ext, -, hext⟩ := h.extension
  obtain ⟨hname, hne, hslash, -⟩ := name_of_extension hext
  have hbase := find?_base hne hslash hs ((Policy.ofConfig c.generation).back source)
  have hbeside : ∀ name ∈ tried source.stem,
      st.isFile (((Policy.ofConfig c.generation).back source).join ⟨name⟩) =
        st.isFile (source.parent.join ⟨name⟩) := by
    intro name hmem
    rw [Bool.eq_iff_iff, Store.isFile_iff, Store.isFile_iff]
    exact exists_congr fun place => exists_congr fun content => h.beside hvalid hs hmem _
  -- What is tried is found, as the source is among it.
  have hfound : ((tried source.stem).find? fun name => st.isFile (source.parent.join ⟨name⟩)).isSome := by
    have hmem := h.own_mem_tried hname
    rw [List.find?_isSome]
    refine ⟨_, hmem, ?_⟩
    obtain ⟨place, content, hl⟩ := Store.isFile_iff.mp h.isFile
    rw [← hbeside _ hmem]
    exact Store.isFile_iff.mpr ⟨place, content, (h.same hvalid hs hname _).mpr hl⟩
  have htried : ((tried source.stem).map fun name =>
      ((Policy.ofConfig c.generation).back source).join ⟨name⟩).find? st.isFile =
        ((tried source.stem).find? fun name => st.isFile (source.parent.join ⟨name⟩)).map
          fun name => ((Policy.ofConfig c.generation).back source).join ⟨name⟩ := by
    rw [List.find?_map]
    exact congrArg _ (Store.find?_congr fun before name after heq _ => hbeside name (by simp [heq]))
  have hendings (dir : Path) : (Store.moduleEndings.map fun e =>
      (⟨(dir.join ⟨source.stem⟩).text ++ e⟩ : Path)) =
        (Store.moduleEndings.map (source.stem ++ ·)).map fun name => dir.join ⟨name⟩ := by
    rw [List.map_map]
    refine List.map_congr_left fun e _ => congrArg Path.mk ?_
    exact (Path.text_join_append dir hne (Store.isAbsolute_name hslash) e).symm
  rw [Store.resolve?, if_pos (startsWith_importPath _ _), join_importPath _ hslash,
    Store.moduleCandidates, hendings, List.find?_append, List.find?_append, hbase,
    ← List.find?_append, ← List.map_append]
  obtain ⟨name, hfirst⟩ := Option.isSome_iff_exists.mp hfound
  rw [hfirst] at htried ⊢
  exact (congrArg (Option.or · _) htried).trans rfl

end finds

end way

/-- The import of a test file finds its source, if no name that is tried before that of the source is
that of a file beside it. -/
theorem findsSource {c : Config} (hvalid : c.isValid = true) {st : Store} (hs : st.HasShortLinks)
    {source : Path} (h : IsPlaced st (Policy.ofConfig c.generation) source) :
    FindsSource st (Policy.ofConfig c.generation) source := by
  obtain ⟨ext, -, hext⟩ := h.extension
  obtain ⟨-, hne, hslash, -⟩ := name_of_extension hext
  have hresolved := h.resolved hvalid hs
  have hunshadowed : ∀ own ∈ source.fileName?,
      st.resolve? ((Policy.ofConfig c.generation).targetPath source)
          ((Policy.ofConfig c.generation).importPath source) =
        some (((Policy.ofConfig c.generation).back source).join ⟨own⟩) ↔
      ∀ name ∈ preferred source, st.isFile (source.parent.join ⟨name⟩) = false := by
    intro own hown
    have hmem := h.own_mem_tried hown
    obtain ⟨place, content, hl⟩ := Store.isFile_iff.mp h.isFile
    have hrelative {name : String} (hname : name ∈ tried source.stem) :
        (⟨name⟩ : Path).isAbsolute = false :=
      Store.isAbsolute_name (isFileName_of_mem_tried hne hslash hname).slash
    have hfile : st.isFile (source.parent.join ⟨own⟩) = true :=
      Store.isFile_iff.mpr ⟨place, content,
        (h.beside hvalid hs hmem _).mp ((h.same hvalid hs hown _).mpr hl)⟩
    rw [hresolved, preferred, Option.mem_def.mp hown, Option.getD_some,
      ← find?_eq_some_iff_takeWhile hmem hfile, Option.map_eq_some_iff]
    constructor
    · rintro ⟨name, hfirst, htext⟩
      have hname := List.mem_of_find?_eq_some hfirst
      have hnames := congrArg Path.text htext
      rw [text_back_join _ _ (hrelative hname), text_back_join _ _ (hrelative hmem),
        String.append_right_inj] at hnames
      rw [hfirst, hnames]
    · exact fun hfirst => ⟨own, hfirst, rfl⟩
  refine ⟨hresolved, fun name hname l => h.beside hvalid hs hname l, hunshadowed,
    fun own hown l => h.same hvalid hs hown l, fun hnone own hown m hload => ?_⟩
  have hfound := (hunshadowed own hown).mpr hnone
  have hextension : (((Policy.ofConfig c.generation).back source).join ⟨own⟩).extension? =
      source.extension? := by
    have hname := (isFileName_of_mem_tried hne hslash (h.own_mem_tried hown)).fileName?
    rw [Path.extension?, Path.extension?, hname.2, Option.mem_def.mp hown]
  have hloaded := load_of_locate hextension (fun l => h.same hvalid hs hown l) hload
  rw [Store.lookup, hfound]
  dsimp only
  rw [hloaded]

/-! ### Sources with neighbours -/

theorem hasShortLinks_of_entries {st : Store} (h : (st.entries.all fun e =>
    match e.2 with
    | .link target => decide (target.text.utf8ByteSize < Store.pathLimit)
    | _ => true) = true) : st.HasShortLinks := by
  intro x target hget
  by_cases hx : x = []
  · subst hx
    cases hget
  · exact of_decide_eq_true (List.all_eq_true.mp h _ (Store.mem_entries_of_get? hx hget))

instance (p : Path) : Decidable (IsPath p) := inferInstanceAs (Decidable (_ ∧ _ ∧ _))

namespace Nested

/-- A store in which the source is behind a link, beside a directory and a file with its stem. -/
def store : Store :=
  ⟨[(["app"], .link ⟨"/home"⟩), (["home"], .directory), (["home", "src"], .directory),
    (["home", "src", ".Card.view.tsx"], .file (.text "export const Card = () => <p/>")),
    (["home", "src", ".Card.view.jsx"], .file (.text "export const Card = () => <i/>")),
    (["home", "src", ".Card.view"], .directory),
    (["home", "src", ".Card.view", "index.ts"], .file (.text "")),
    (["home", "src", "unit"], .directory), (["home", "src", "unit", "tests"], .directory)], []⟩

theorem isPlaced : IsPlaced store (Policy.ofConfig config.generation) source where
  extension := ⟨"tsx", by decide, by decide +kernel⟩
  isFile := by decide +kernel
  directory := by
    have hnames : (Policy.ofConfig config.generation).names = ["unit", "tests"] := by decide +kernel
    refine ⟨["home", "src"], by decide +kernel, ?_⟩
    rw [hnames]
    exact .down ⟨by decide, by decide, by decide⟩ (by decide +kernel)
      (.down ⟨by decide, by decide, by decide⟩ (by decide +kernel) .here)
  isPath := by decide +kernel

end Nested

theorem findsSource_nested : Nested.config.isValid = true ∧ Nested.store.HasShortLinks ∧
    IsPlaced Nested.store (Policy.ofConfig Nested.config.generation) Nested.source ∧
      FindsSource Nested.store (Policy.ofConfig Nested.config.generation) Nested.source ∧
        Nested.store.resolve?
          ((Policy.ofConfig Nested.config.generation).targetPath Nested.source) "../../.Card.view" =
            some ⟨"/app/src/./unit/./tests/../../.Card.view.tsx"⟩ := by
  have hvalid : Nested.config.isValid = true := by decide +kernel
  have hshort : Nested.store.HasShortLinks := hasShortLinks_of_entries (by decide +kernel)
  exact ⟨hvalid, hshort, Nested.isPlaced, findsSource hvalid hshort Nested.isPlaced,
    by decide +kernel⟩

namespace Shadowed

/-- A store with a module beside a source with the same stem. -/
def store : Store :=
  ⟨[(["src"], .directory), (["src", "A.tsx"], .file (.text "export const A = () => <p>a</p>;")),
    (["src", "A.ts"], .file (.text "export const n = 1;"))], []⟩

/-- The source. -/
def source : Path := ⟨"/src/A.tsx"⟩

/-- Where tests go if nothing is set. -/
def policy : Policy := Policy.ofConfig Config.empty.generation

theorem isPlaced : IsPlaced store policy source where
  extension := ⟨"tsx", by decide, by decide +kernel⟩
  isFile := by decide +kernel
  directory := by
    have hnames : policy.names = [] := by decide +kernel
    refine ⟨["src"], by decide +kernel, ?_⟩
    rw [hnames]
    exact .here
  isPath := by decide +kernel

end Shadowed

/-- The import of a test file finds a module with the stem of the source instead. -/
theorem source_shadowed : Config.empty.isValid = true ∧ Shadowed.store.HasShortLinks ∧
    IsPlaced Shadowed.store Shadowed.policy Shadowed.source ∧
      Shadowed.store.resolve? (Shadowed.policy.targetPath Shadowed.source)
        (Shadowed.policy.importPath Shadowed.source) = some ⟨"/src/./A.ts"⟩ ∧
          Shadowed.store.locate true ⟨"/src/./A.ts"⟩ ≠ Shadowed.store.locate true Shadowed.source :=
  ⟨by decide +kernel, hasShortLinks_of_entries (by decide +kernel), Shadowed.isPlaced,
    by decide +kernel, by decide +kernel⟩

namespace Linked

/-- Settings with a test directory. -/
def config : Config :=
  { Config.empty with generation := { Config.Generation.empty with testDirectory := some "unit" } }

/-- A store in which the test directory is a link. -/
def store : Store :=
  ⟨[(["src"], .directory), (["src", "A.tsx"], .file (.text "export const A = () => <p>a</p>;")),
    (["src", "unit"], .link ⟨"/other"⟩), (["other"], .directory)], []⟩

end Linked

/-- Behind a test directory that is a link, the import of a test file finds nothing. -/
example : Linked.config.isValid = true ∧
    Linked.store.isDirectory ((Policy.ofConfig Linked.config.generation).targetDir ⟨"/src/A.tsx"⟩) =
      true ∧
    Linked.store.resolve? ((Policy.ofConfig Linked.config.generation).targetPath ⟨"/src/A.tsx"⟩)
      ((Policy.ofConfig Linked.config.generation).importPath ⟨"/src/A.tsx"⟩) = none := by
  decide +kernel

end Placement

end Trellis
