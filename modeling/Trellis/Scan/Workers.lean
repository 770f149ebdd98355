import Trellis.Scan.Walk

/-! # The workers of a walk

A walk is shared by workers, which deliver the files they meet in any order.

* `Walk.Task` is something that is still to be done: a file to deliver, a directory to enter. All
  tasks stand in one list, whichever worker holds them.
* `Walk.Step` is one step of one worker, which takes any task of the list; `Walk.Finishes` says that
  steps go on until nothing is left to be done. -/

namespace Trellis

namespace Walk

/-- Something that is still to be done. -/
inductive Task where
  /-- A file is to be delivered. -/
  | file (path : Path)
  /-- A directory is to be entered; `way` starts with it, and `n` bounds how far down it goes. -/
  | directory (n : Nat) (way : Way) (path : Path)
  deriving DecidableEq, Repr

/-- What is to be done with what stands at a path below the first directory of `way`. -/
def taskAt? (w : Walk) (s : Store) (n : Nat) (way : Way) (p : Path) : Option Task :=
  match w.entryAt? s way p with
  | some (place, .directory) =>
    if w.ignores (way.map (·.2)) p true then none
    else some (.directory n ((place, Level.ofDirectory s p) :: way) p)
  | some (_, .file c) =>
    if w.ignores (way.map (·.2)) p false || w.maxFileSize < c.size then none else some (.file p)
  | _ => none

/-- What is to be done in a directory. -/
def tasksIn (w : Walk) (s : Store) : (n : Nat) → Way → Path → List Task
  | 0, _, _ => []
  | n + 1, way, dir =>
    (s.children ((way.head?.map (·.1)).getD [])).filterMap fun name =>
      w.taskAt? s n way (dir.join ⟨name⟩)

/-- One step of one worker, with what is still to be done and what was delivered. -/
inductive Step (w : Walk) (s : Store) : List Task → List Path → List Task → List Path → Prop
  /-- A file is delivered. -/
  | file (before after : List Task) (delivered : List Path) (p : Path) :
      Step w s (before ++ .file p :: after) delivered (before ++ after) (delivered ++ [p])
  /-- A directory is entered. -/
  | directory (before after : List Task) (delivered : List Path) (n : Nat) (way : Way)
      (dir : Path) :
      Step w s (before ++ .directory n way dir :: after) delivered
        (before ++ (w.tasksIn s n way dir ++ after)) delivered

/-- Steps of workers until nothing is left to be done. -/
inductive Finishes (w : Walk) (s : Store) : List Task → List Path → List Path → Prop
  /-- Nothing is left. -/
  | done (delivered : List Path) : Finishes w s [] delivered delivered
  /-- A step is taken. -/
  | step {tasks tasks' : List Task} {delivered delivered' final : List Path} :
      Step w s tasks delivered tasks' delivered' → Finishes w s tasks' delivered' final →
      Finishes w s tasks delivered final

end Walk

namespace Store

/-- What a walk from a root goes by that leads to the directory at a place. -/
def walkAt (s : Store) (c : Config.Scan) (root : Path) (place : Place) : Walk :=
  { root := root
    top := pathOf place
    above := (placesAbove place).map fun p => Level.ofDirectory s (pathOf p)
    patterns := .ofConfig c root
    maxFileSize := c.effectiveMaxFileSize
    followsLinks := c.effectiveFollowSymlinks }

/-- What is to be done at first. The path `-` names no directory. -/
def firstTasks (s : Store) (root : Path) (place : Place) : List Walk.Task :=
  if root.same ⟨"-"⟩ then []
  else
    [.directory ((s.entries.length + 2) * (s.entries.length + 2))
      [(place, Level.ofDirectory s root)] root]

end Store

end Trellis
