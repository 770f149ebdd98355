import Trellis.Proofs.Path.Order
import Trellis.Proofs.Scan.Ignored
import Trellis.Proofs.Store.Listing
import Trellis.Scan.Workers

/-! # What a walk brings

What the workers of a walk deliver, in whatever order they do.

* `Walk.Finishes.perm`: all that is delivered are the files of the walk, each as often as the walk
  meets it.
* `Walk.taskAt?_eq_some` says what is done with what stands in a directory, and `Walk.invariant` is
  the induction over a walk: what holds of the root and goes on to what is not left out holds of all
  files.
* `Store.candidates_own`: what is found is sorted, and it consists of files of the project that are
  not too large and that lie in no directory that is always left out. -/

namespace Trellis

/-! ### Workers -/

namespace Walk

variable {w : Walk} {s : Store}

/-- The files that a task leads to. -/
def Task.files (w : Walk) (s : Store) : Task → List Path
  | file p => [p]
  | directory n way dir => w.filesBelow s n way dir

/-- The files below a directory are those of the tasks in it. -/
theorem filesBelow_eq (n : Nat) (way : Way) (dir : Path) :
    w.filesBelow s n way dir = (w.tasksIn s n way dir).flatMap (Task.files w s) := by
  cases n with
  | zero => rfl
  | succ n =>
      rw [filesBelow, tasksIn, List.filterMap_eq_flatMap_toList, List.flatMap_assoc]
      refine List.flatMap_congr fun name _ => ?_
      unfold taskAt?
      dsimp only
      rcases w.entryAt? s way (dir.join ⟨name⟩) with _ | ⟨place, c | _ | target⟩
      · rfl
      · dsimp only
        split <;> simp [Task.files]
      · dsimp only
        split <;> simp [Task.files]
      · rfl

theorem Step.perm {tasks tasks' : List Task} {delivered delivered' : List Path}
    (h : w.Step s tasks delivered tasks' delivered') :
    (delivered' ++ tasks'.flatMap (Task.files w s)).Perm
      (delivered ++ tasks.flatMap (Task.files w s)) := by
  cases h with
  | file before after _ p =>
      rw [List.append_assoc, List.flatMap_append, List.flatMap_append, List.flatMap_cons,
        Task.files, List.singleton_append, List.singleton_append]
      exact .append_left _ List.perm_middle.symm
  | directory before after _ n way dir =>
      simp only [List.flatMap_append, List.flatMap_cons, Task.files, filesBelow_eq n]
      exact .refl _

/-- Whatever the order of steps, the files of the tasks are delivered. -/
theorem Finishes.perm {tasks : List Task} {delivered final : List Path}
    (h : w.Finishes s tasks delivered final) :
    final.Perm (delivered ++ tasks.flatMap (Task.files w s)) := by
  induction h with
  | done delivered => rw [List.flatMap_nil, List.append_nil]
  | step hstep _ ih => exact ih.trans hstep.perm

end Walk

/-! ### What stands in a directory -/

/-- A name is put behind what stands below the root already. -/
theorem Store.IsEntryName.text_join {name : String} (h : IsEntryName name) {dir : Path}
    {root below : List Char} (hroot : root ≠ []) (hdir : dir.text.toList = root ++ below) :
    ∃ below', (dir.join ⟨name⟩).text.toList = root ++ below' ∧ EndsIn name.toList below' ∧
      EndsIn name.toList (root ++ below') := by
  have hrelative : (⟨name⟩ : Path).isAbsolute = false := by
    rw [Path.isAbsolute, decide_eq_false_iff_not]
    exact fun hhead => h.noSlash (List.mem_of_mem_head? hhead)
  have hslash (more : List Char) : ∀ c ∈ (more ++ ['/']).getLast?, c = '/' := by simp
  unfold Path.join
  rw [hrelative, if_neg Bool.false_ne_true]
  split
  · next hlast =>
      rw [hdir, List.getLast?_eq_none_iff, List.append_eq_nil_iff] at hlast
      exact absurd hlast.1 hroot
  · next hlast =>
      rw [hdir] at hlast
      refine ⟨below ++ name.toList, by rw [String.toList_append, hdir, List.append_assoc],
        ⟨below, rfl, fun c hc => ?_⟩, ⟨root ++ below, (List.append_assoc _ _ _).symm, ?_⟩⟩
      · rw [List.getLast?_append_of_ne_nil _ fun hnil => by simp [hnil] at hc, hc] at hlast
        exact Option.some.inj hlast
      · rw [hlast]
        exact fun c hc => (Option.some.inj hc).symm
  · refine ⟨below ++ ['/'] ++ name.toList, ?_, ⟨_, rfl, hslash below⟩,
      ⟨root ++ (below ++ ['/']), (List.append_assoc _ _ _).symm, ?_⟩⟩
    · rw [String.toList_append, String.toList_append, hdir, List.append_assoc, List.append_assoc,
        List.append_assoc]
      rfl
    · rw [← List.append_assoc]
      exact hslash _

namespace Walk

variable {w : Walk} {s : Store} {n : Nat} {way : Way} {p : Path}

theorem entry?_of_entryAt? {place : Place} {c : Content}
    (h : w.entryAt? s way p = some (place, .file c)) : s.entry? p = some (.file c) := by
  have hfile : s.locate true p = .ok (.at place (.file c)) := by
    unfold entryAt? at h
    split at h
    · split at h
      · split at h
        · split at h <;> cases h
        · next hlocate =>
            cases h
            exact hlocate
        · cases h
      · cases h
    · next hlocate =>
        cases h
        exact Store.locate_follow hlocate
    · cases h
  rw [Store.entry?, hfile]

/-- A directory is entered and a file is delivered only if it is not left out. -/
theorem taskAt?_eq_some {t : Task} (h : w.taskAt? s n way p = some t) :
    (∃ place, t = .directory n ((place, Level.ofDirectory s p) :: way) p ∧
      w.ignores (way.map (·.2)) p true = false) ∨
    ∃ c, t = .file p ∧ w.ignores (way.map (·.2)) p false = false ∧
      s.entry? p = some (.file c) ∧ c.size ≤ w.maxFileSize := by
  unfold taskAt? at h
  split at h
  · next place hentry =>
      split at h
      · cases h
      · next hignored =>
          cases h
          exact .inl ⟨place, rfl, Bool.eq_false_iff.mpr hignored⟩
  · next place c hentry =>
      split at h
      · cases h
      · next hno =>
          cases h
          rw [Bool.or_eq_true, decide_eq_true_eq, not_or] at hno
          exact .inr ⟨c, rfl, Bool.eq_false_iff.mpr hno.1, entry?_of_entryAt? hentry,
            Nat.le_of_not_lt hno.2⟩
  · cases h

/-- What holds of the first directory and goes on to what is not left out holds of all files, and each
file is there and not too large. -/
theorem invariant (hs : s.IsListed) {P : Path → Prop}
    (hstep : ∀ dir name levels isDirectory, P dir → Store.IsEntryName name →
      w.ignores levels (dir.join ⟨name⟩) isDirectory = false → P (dir.join ⟨name⟩))
    {dir : Path} (hdir : P dir) (hp : p ∈ w.filesBelow s n way dir) :
    P p ∧ ∃ c, s.entry? p = some (.file c) ∧ c.size ≤ w.maxFileSize := by
  induction n generalizing way dir with
  | zero => cases hp
  | succ n ih =>
      rw [filesBelow_eq] at hp
      obtain ⟨t, ht, hp⟩ := List.mem_flatMap.mp hp
      obtain ⟨name, hname, htask⟩ := List.mem_filterMap.mp ht
      have hentry := hs.isEntryName hname
      rcases taskAt?_eq_some htask with ⟨place, rfl, hignored⟩ | ⟨c, rfl, hignored, hfile⟩
      · exact ih (hstep _ _ _ _ hdir hentry hignored) hp
      · obtain rfl := List.mem_singleton.mp hp
        exact ⟨hstep _ _ _ _ hdir hentry hignored, c, hfile⟩

/-- Below a directory all paths start with its components. -/
theorem prefix_of_mem_filesBelow (hs : s.IsListed) {dir : Path}
    (hp : p ∈ w.filesBelow s n way dir) : dir.components <+: p.components := by
  refine (invariant hs (P := (dir.components <+: ·.components)) ?_ (List.prefix_refl _) hp).1
  intro dir' name _ _ hdir hname _
  rw [hname.components_join]
  exact hdir.trans (List.prefix_append _ _)

theorem prefix_of_mem_files (hs : s.IsListed) {q : Path} {t : Task}
    (ht : w.taskAt? s n way q = some t) (hp : p ∈ t.files w s) : q.components <+: p.components := by
  rcases taskAt?_eq_some ht with ⟨place, rfl, -⟩ | ⟨c, rfl, -⟩
  · exact prefix_of_mem_filesBelow hs hp
  · obtain rfl := List.mem_singleton.mp hp
    exact List.prefix_refl _

/-- A walk meets no path twice. -/
theorem nodup_filesBelow (hs : s.IsListed) (dir : Path) :
    ((w.filesBelow s n way dir).map (·.components)).Nodup := by
  rw [List.Nodup, List.pairwise_map]
  induction n generalizing way dir with
  | zero => exact .nil
  | succ n ih =>
      rw [filesBelow_eq, List.pairwise_flatMap]
      constructor
      · intro t ht
        obtain ⟨name, -, htask⟩ := List.mem_filterMap.mp ht
        rcases taskAt?_eq_some htask with ⟨place, rfl, -⟩ | ⟨c, rfl, -⟩
        · exact ih _
        · exact List.pairwise_singleton _ _
      · rw [tasksIn, List.pairwise_filterMap]
        refine (hs.nodup_children _).imp_of_mem fun {name name'} hname hname' hne => ?_
        intro t ht t' ht' x hx y hy heq
        -- The paths go on from the directory with different names.
        have hx := prefix_of_mem_files hs ht hx
        have hy := prefix_of_mem_files hs ht' hy
        rw [(hs.isEntryName hname).components_join] at hx
        rw [(hs.isEntryName hname').components_join, ← heq] at hy
        have hsame := (List.prefix_of_prefix_length_le hx hy (by simp)).eq_of_length (by simp)
        cases List.append_cancel_left hsame
        exact hne rfl

/-- Whether a path lies below a root, under names of which none is always left out. -/
structure IsOwn (root p : Path) : Prop where
  /-- The text of the path goes on from that of the root. -/
  text : ∃ below, p.text.toList = root.text.toList ++ below
  /-- So do the components. -/
  names : ∃ names : List String, p.components = root.components ++ names.map .normal ∧
    ∀ name ∈ names, name ∉ ignoredNames

theorem IsOwn.join {c : Config.Scan} {root dir : Path} {name : String} {levels : List Level}
    {isDirectory : Bool} (h : IsOwn root dir) (hpatterns : w.patterns = .ofConfig c root)
    (hroot : root.text ≠ "") (hname : Store.IsEntryName name)
    (hignored : w.ignores levels (dir.join ⟨name⟩) isDirectory = false) :
    IsOwn root (dir.join ⟨name⟩) := by
  obtain ⟨⟨below, htext⟩, names, hnames, hown⟩ := h
  obtain ⟨below', htext', hbelow, hpath⟩ :=
    hname.text_join (mt String.toList_eq_nil_iff.mp hroot) htext
  refine ⟨⟨below', htext'⟩, names ++ [name], ?_, ?_⟩
  · rw [hname.components_join, hnames, List.map_append, List.append_assoc]
    rfl
  · intro name' hname'
    rcases List.mem_append.mp hname' with hname' | hname'
    · exact hown name' hname'
    · obtain rfl := List.mem_singleton.mp hname'
      intro hmem
      have hverdict := Patterns.verdict?_of_endsIn c hroot hmem hbelow hpath isDirectory
      rw [← htext', ← hpatterns] at hverdict
      rw [ignores, hverdict] at hignored
      cases hignored

end Walk

/-! ### One worker -/

namespace Walk

variable {w : Walk} {s : Store}

/-- Whether a task can be done before all others. -/
def Task.IsDone (w : Walk) (s : Store) (t : Task) : Prop :=
  ∀ ⦃rest delivered final⦄, w.Finishes s rest (delivered ++ t.files w s) final →
    w.Finishes s (t :: rest) delivered final

theorem finishes_append {tasks rest : List Task} {delivered final : List Path}
    (htasks : ∀ t ∈ tasks, t.IsDone w s)
    (h : w.Finishes s rest (delivered ++ tasks.flatMap (Task.files w s)) final) :
    w.Finishes s (tasks ++ rest) delivered final := by
  induction tasks generalizing delivered with
  | nil => rwa [List.flatMap_nil, List.append_nil] at h
  | cons t tasks ih =>
      obtain ⟨ht, htasks⟩ := List.forall_mem_cons.mp htasks
      rw [List.flatMap_cons, ← List.append_assoc] at h
      exact ht (ih htasks h)

theorem isDone_file (p : Path) : (Task.file p).IsDone w s :=
  fun rest delivered _ h => .step (.file [] rest delivered p) h

theorem isDone_directory (n : Nat) (way : Way) (dir : Path) :
    (Task.directory n way dir).IsDone w s := by
  induction n generalizing way dir with
  | zero =>
      intro rest delivered final h
      rw [Task.files, filesBelow, List.append_nil] at h
      exact .step (.directory [] rest delivered 0 way dir) h
  | succ n ih =>
      intro rest delivered final h
      rw [Task.files, filesBelow_eq] at h
      refine .step (.directory [] rest delivered (n + 1) way dir) ?_
      rw [List.nil_append]
      refine finishes_append (fun t ht => ?_) h
      obtain ⟨name, -, htask⟩ := List.mem_filterMap.mp ht
      rcases taskAt?_eq_some htask with ⟨place, rfl, -⟩ | ⟨c, rfl, -⟩
      · exact ih _ _
      · exact isDone_file _

/-- Tasks can be done one after another. -/
theorem exists_finishes (tasks : List Task) : ∃ delivered, w.Finishes s tasks [] delivered := by
  have htasks : ∀ t ∈ tasks, t.IsDone w s := by
    rintro (p | ⟨n, way, dir⟩) -
    · exact isDone_file p
    · exact isDone_directory n way dir
  have h : w.Finishes s (tasks ++ []) [] _ := finishes_append htasks (.done _)
  rw [List.append_nil] at h
  exact ⟨_, h⟩

end Walk

/-! ### The walk of a project -/

namespace Store

variable {s : Store} {root : Path} {place : Place}

/-- The files of a walk are those of its first tasks. -/
theorem walkFiles_eq (c : Config.Scan) (hroot : s.locate true root = .ok (.at place .directory)) :
    s.walkFiles c root =
      (s.firstTasks root place).flatMap (Walk.Task.files (s.walkAt c root place) s) := by
  unfold walkFiles firstTasks
  split
  · rfl
  · rw [hroot]
    simp [Walk.Task.files, walkAt]

theorem nodup_walkFiles (hs : s.IsListed) (c : Config.Scan)
    (hroot : s.locate true root = .ok (.at place .directory)) :
    ((s.walkFiles c root).map (·.components)).Nodup := by
  rw [walkFiles_eq c hroot]
  unfold firstTasks
  split
  · exact .nil
  · rw [List.flatMap_singleton]
    exact Walk.nodup_filesBelow hs root

theorem mem_walkFiles (hs : s.IsListed) (c : Config.Scan)
    (hroot : s.locate true root = .ok (.at place .directory)) {p : Path}
    (hp : p ∈ s.walkFiles c root) : Walk.IsOwn root p ∧
      ∃ content, s.entry? p = some (.file content) ∧ content.size ≤ c.effectiveMaxFileSize := by
  have htext : root.text ≠ "" := (locate_ok_iff.mp hroot).1.1
  rw [walkFiles_eq c hroot] at hp
  unfold firstTasks at hp
  split at hp
  · cases hp
  · rw [List.flatMap_singleton] at hp
    refine Walk.invariant hs (fun dir name levels isDirectory hdir hname hignored =>
      hdir.join rfl htext hname hignored) ⟨⟨[], (List.append_nil _).symm⟩, [], ?_, nofun⟩ hp
    exact (List.append_nil _).symm

end Store

namespace Unpacked

/-- Settings that ask for what is never entered, with patterns that cannot be read. -/
def config : Config.Scan :=
  { Config.Scan.empty with
    includes := ["**/*.tsx", "node_modules/**", "!dist", "src/["]
    extraIgnore := ["!node_modules", "!!dist/**", "]["] }

/-- A project with what was installed and what was built. -/
def start : Store :=
  ⟨[(["p"], .directory), (["p", "src"], .directory), (["p", "src", "A.tsx"], .file (.text "a")),
    (["p", "node_modules"], .directory), (["p", "node_modules", "B.tsx"], .file (.text "b")),
    (["p", "dist"], .directory), (["p", "dist", "C.tsx"], .file (.text "c")),
    (["p", "D.tsx"], .file (.text "d"))], ["p"]⟩

/-- The root. -/
def root : Path := ⟨"/p"⟩

theorem isListed : start.IsListed := by
  refine ⟨by decide +kernel, ?_⟩
  have hnames : ∀ e ∈ start.entries, ∀ name ∈ e.1,
      name ≠ "" ∧ name ≠ "." ∧ name ≠ ".." ∧ '/' ∉ name.toList := by decide +kernel
  intro e he name hname
  obtain ⟨hempty, hdot, hup, hslash⟩ := hnames e he name hname
  exact ⟨hempty, hdot, hup, hslash⟩

theorem locate_root : start.locate true root = .ok (.at ["p"] .directory) := by decide +kernel

/-- The directories on the way to the first source, the innermost first. -/
def way : Walk.Way :=
  [(["p", "src"], Level.ofDirectory start ⟨"/p/src"⟩), (["p"], Level.ofDirectory start root)]

/-- The workers may come to the file in the root first. -/
theorem finishes : (start.walkAt config root ["p"]).Finishes start (start.firstTasks root ["p"]) []
    [⟨"/p/D.tsx"⟩, ⟨"/p/src/A.tsx"⟩] := by
  have hroot : (start.walkAt config root ["p"]).tasksIn start 100
      [(["p"], Level.ofDirectory start root)] root =
        [.directory 99 way ⟨"/p/src"⟩, .file ⟨"/p/D.tsx"⟩] := by decide +kernel
  have hsrc : (start.walkAt config root ["p"]).tasksIn start 99 way ⟨"/p/src"⟩ =
      [.file ⟨"/p/src/A.tsx"⟩] := by decide +kernel
  refine .step (.directory [] [] [] 100 _ root) ?_
  rw [hroot]
  refine .step (.file [_] [] [] _) (.step (.directory [] [] _ 99 way _) ?_)
  rw [hsrc]
  exact .step (.file [] [] _ _) (.done _)

end Unpacked

end Trellis
