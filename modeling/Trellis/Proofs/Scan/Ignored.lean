import Trellis.Proofs.Path.Components
import Trellis.Proofs.Text.Blanks
import Trellis.Scan.Patterns

/-! # What is never entered

No pattern brings back what is always left out.

* `IgnoreRule.negated_of_read?`: every rule for what is left out is read the other way around,
  whatever pattern it was made of.
* `EndsIn` says that the last name of a path is a given one. What a rule is shown of such a path
  still ends in the name (`IgnoreRules.seenFrom_endsIn`).
* `Patterns.verdict?_of_endsIn`: a path whose last name is one of those that are always left out is
  left out, whatever the settings say. -/

namespace Trellis

/-! ### Bytes of texts -/

theorem toList_loop_eq (bs : ByteArray) (n i : Nat) (hn : bs.size - i = n) (r : List UInt8) :
    ByteArray.toList.loop bs i r = r.reverse ++ bs.data.toList.drop i := by
  have hlength : bs.data.toList.length = bs.size := Array.length_toList
  induction n generalizing i r with
  | zero =>
      rw [ByteArray.toList.loop, if_neg (by omega), List.drop_eq_nil_of_le (by omega),
        List.append_nil]
  | succ n ih =>
      have hi : i < bs.data.toList.length := by omega
      have hbyte : bs.get! i = bs.data.toList[i] := getElem!_pos bs.data i hi
      rw [ByteArray.toList.loop, if_pos (by omega), ih (i + 1) (by omega),
        List.drop_eq_getElem_cons hi, hbyte, List.reverse_cons, List.append_assoc,
        List.singleton_append]

/-- The bytes of a text, character by character. -/
theorem toList_toUTF8 (s : List Char) :
    (String.ofList s).toUTF8.toList = s.flatMap String.utf8EncodeChar := by
  rw [ByteArray.toList, toList_loop_eq _ _ 0 rfl]
  simp [String.toUTF8, String.toByteArray_ofList, List.utf8Encode]

/-! ### Rules that are read the other way around -/

namespace IgnoreRule

theorem exists_trimLine (line : List Char) : ∃ rest, trimLine ('!' :: line) = '!' :: rest := by
  unfold trimLine
  split
  · exact ⟨line, rfl⟩
  · exact ⟨_, Text.Blank.trimEnd_cons (.inl (by decide))⟩

/-- A line that starts with `!` makes a rule that is read the other way around. -/
theorem negated_of_read? {lenient : Bool} {line : List Char} {r : IgnoreRule}
    (h : read? lenient ('!' :: line) = some r) : r.negated = true := by
  obtain ⟨rest, hrest⟩ := exists_trimLine line
  have hstart : (readStart ('!' :: rest)).1 = true := by
    unfold readStart
    split <;> simp_all
  unfold read? at h
  rw [if_neg (by simp)] at h
  dsimp only at h
  rw [hrest, if_neg (by simp)] at h
  obtain ⟨glob, -, rfl⟩ := Option.map_eq_some_iff.mp h
  exact hstart

/-- The rule for a name at any depth. -/
def anywhere (name : String) : IgnoreRule :=
  ⟨⟨[.leading :: name.toUTF8.toList.map .byte]⟩, true, false⟩

/-- The names that are always left out are ruled out at any depth. -/
theorem read?_ignoredNames : ∀ name ∈ ignoredNames,
    read? false ("!" ++ name).toList = some (anywhere name) := by
  decide +kernel

end IgnoreRule

/-! ### Matching a name at any depth -/

namespace Glob

theorem matchesPieces_byte (bs : List UInt8) : matchesPieces (bs.map .byte) bs = true := by
  induction bs with
  | nil => rfl
  | cons b bs ih => simp [matchesPieces, Piece.after, ih]

theorem mem_afterSlashes (before after : List UInt8) :
    after ∈ Piece.afterSlashes (before ++ slash :: after) := by
  induction before with
  | nil => simp [Piece.afterSlashes]
  | cons b before ih => exact List.mem_append_right _ ih

end Glob

/-- Whether the last name of a path's text is a given one. -/
def EndsIn (name path : List Char) : Prop :=
  ∃ before, path = before ++ name ∧ ∀ c ∈ before.getLast?, c = '/'

namespace EndsIn

variable {name path : List Char}

/-- What ends in a name is left for it by any number of names before. -/
theorem mem_after (h : EndsIn name path) :
    name.flatMap String.utf8EncodeChar ∈
      Glob.Piece.leading.after (path.flatMap String.utf8EncodeChar) := by
  obtain ⟨before, rfl, hslash⟩ := h
  rw [List.flatMap_append]
  rcases List.eq_nil_or_concat before with rfl | ⟨rest, c, rfl⟩
  · exact List.mem_cons_self
  · obtain rfl := hslash c (by simp)
    have hbyte : String.utf8EncodeChar '/' = [Glob.slash] := rfl
    rw [List.concat_eq_append, List.flatMap_append, List.flatMap_singleton, hbyte,
      List.append_assoc, List.singleton_append]
    exact List.mem_append_right _ (Glob.mem_afterSlashes _ _)

/-- What follows a separator ends in the same name. -/
theorem of_append_slash (before : List Char) {after : List Char} (hname : '/' ∉ name)
    (h : EndsIn name (before ++ '/' :: after)) : EndsIn name after := by
  obtain ⟨front, heq, hlast⟩ := h
  rw [List.append_cons, List.append_eq_append_iff] at heq
  rcases heq with ⟨rest, rfl, rfl⟩ | ⟨rest, hfront, rfl⟩
  · refine ⟨rest, rfl, fun c hc => hlast c ?_⟩
    rw [List.getLast?_append_of_ne_nil _ fun hnil => by simp [hnil] at hc]
    exact hc
  · rcases List.eq_nil_or_concat rest with rfl | ⟨rest, c, rfl⟩
    · exact ⟨[], rfl, nofun⟩
    · -- The separator would stand in the name.
      rw [List.concat_eq_append, ← List.append_assoc] at hfront
      obtain ⟨-, hc⟩ := List.append_inj' hfront rfl
      cases hc
      simp at hname

end EndsIn

/-- The rule for a name is about all paths that end in it. -/
theorem IgnoreRule.covers_anywhere {name : String} {path : List Char}
    (h : EndsIn name.toList path) (isDirectory : Bool) :
    (anywhere name).covers (String.ofList path) isDirectory = true := by
  have hname := toList_toUTF8 name.toList
  rw [String.ofList_toList] at hname
  rw [covers, Bool.and_eq_true]
  refine ⟨List.any_eq_true.mpr ⟨_, List.mem_singleton_self _, ?_⟩, by simp [anywhere]⟩
  rw [Glob.matchesPieces, toList_toUTF8, hname]
  exact List.any_eq_true.mpr ⟨_, h.mem_after, Glob.matchesPieces_byte _⟩

/-! ### What rules are shown -/

namespace IgnoreRules

open Text.Search

variable {name root below : List Char}

theorem withoutDot_cons_cons (c d : Char) (s : List Char) :
    withoutDot (c :: d :: s) = if c = '.' ∧ d = '/' then s else c :: d :: s := by
  by_cases h : c = '.' ∧ d = '/'
  · obtain ⟨rfl, rfl⟩ := h
    rfl
  · rw [if_neg h, withoutDot]
    cases hrest : dropStart? ['.', '/'] (c :: d :: s) with
    | none => rfl
    | some rest =>
        have heq := eq_append_of_dropStart? hrest
        simp only [List.cons_append, List.cons.injEq] at heq
        exact absurd ⟨heq.1, heq.2.1⟩ h

theorem withoutDot_append (hroot : root ≠ []) (hdot : root ≠ ['.']) (below : List Char) :
    withoutDot (root ++ below) = withoutDot root ++ below := by
  match root with
  | [] => exact absurd rfl hroot
  | [c] =>
      have hc : '.' ≠ c := fun hc => hdot (hc ▸ rfl)
      simp [withoutDot, dropStart?, hc]
  | c :: d :: s =>
      rw [List.cons_append, List.cons_append, withoutDot_cons_cons, withoutDot_cons_cons]
      split <;> rfl

theorem withoutDot_endsIn (hname : '/' ∉ name) {path : List Char} (h : EndsIn name path) :
    EndsIn name (withoutDot path) := by
  unfold withoutDot
  cases hrest : dropStart? ['.', '/'] path with
  | none => exact h
  | some rest =>
      rw [eq_append_of_dropStart? hrest] at h
      exact h.of_append_slash ['.'] hname

/-- A text before which `./` can be put in place of what follows it has no names. -/
theorem namesOf_of_dropStart? (s : List Char) {rest : List Char}
    (h : dropStart? ('.' :: '/' :: s) (s ++ below) = some rest) : Path.namesOf s = [] := by
  have heq := eq_append_of_dropStart? h
  match s with
  | [] => rfl
  | [c] =>
      obtain ⟨rfl, -⟩ := List.cons.inj heq
      rfl
  | c :: d :: s =>
      obtain ⟨rfl, heq⟩ := List.cons.inj heq
      obtain ⟨rfl, heq⟩ := List.cons.inj heq
      have hrest : dropStart? ('.' :: '/' :: s) (s ++ below) = some rest := by
        rw [show s ++ below = ('.' :: '/' :: s) ++ rest from heq, dropStart?_append]
      exact (Path.namesOf_append ['.'] s).trans (namesOf_of_dropStart? s hrest)

theorem same_dot {s : List Char} (h : Path.namesOf s = []) :
    (Path.mk (String.ofList ('.' :: '/' :: s))).same ⟨"."⟩ = true := by
  have hnames : Path.namesOf ('.' :: '/' :: s) = [] := (Path.namesOf_append ['.'] s).trans h
  rw [Path.same_iff, Path.components, String.toList_ofList, Path.componentsOf_eq, hnames]
  rfl

theorem withoutDot_cases (s : List Char) :
    withoutDot s = s ∨ ∃ rest, s = '.' :: '/' :: rest ∧ withoutDot s = rest := by
  cases hrest : dropStart? ['.', '/'] s with
  | none => exact .inl (by rw [withoutDot, hrest, Option.getD_none])
  | some rest =>
      exact .inr ⟨rest, eq_append_of_dropStart? hrest, by rw [withoutDot, hrest, Option.getD_some]⟩

/-- What follows the directory's text in a path below it ends in the path's last name. -/
theorem endsIn_of_dropStart? (hname : '/' ∉ name) (hroot : root ≠ [])
    (hbelow : EndsIn name below) (hpath : EndsIn name (root ++ below)) {rest : List Char}
    (hsame : (Path.mk (String.ofList (withoutDot root))).same ⟨"."⟩ ≠ true)
    (hrest : dropStart? (withoutDot root) (withoutDot (withoutDot (root ++ below))) = some rest) :
    EndsIn name rest := by
  have hbase : withoutDot root ≠ ['.'] := fun heq => hsame (heq ▸ rfl)
  have hdot : root ≠ ['.'] := by
    rintro rfl
    exact hbase rfl
  by_cases hnil : withoutDot root = []
  · rw [hnil] at hrest
    cases hrest
    exact withoutDot_endsIn hname (withoutDot_endsIn hname hpath)
  · rw [withoutDot_append hroot hdot, withoutDot_append hnil hbase] at hrest
    rcases withoutDot_cases (withoutDot root) with heq | ⟨s, hs, heq⟩
    · rw [heq, dropStart?_append] at hrest
      cases hrest
      exact hbelow
    · rw [heq, hs] at hrest
      exact absurd (hs ▸ same_dot (namesOf_of_dropStart? s hrest)) hsame

/-- What is shown of a path below a directory ends in the path's last name. -/
theorem seenFrom_endsIn (hname : '/' ∉ name) (hroot : root ≠ []) (hbelow : EndsIn name below)
    (hpath : EndsIn name (root ++ below)) :
    EndsIn name (seenFrom (withoutDot root) (withoutDot (root ++ below))) := by
  have hshown := withoutDot_endsIn hname (withoutDot_endsIn hname hpath)
  unfold seenFrom
  dsimp only
  split
  · exact hshown
  · next hguard =>
      cases hrest : dropStart? (withoutDot root) (withoutDot (withoutDot (root ++ below))) with
      | none => exact hshown
      | some rest =>
          have hends := endsIn_of_dropStart? hname hroot hbelow hpath
            (fun hsame => hguard (Bool.or_eq_true _ _ ▸ .inl hsame)) hrest
          dsimp only
          cases hslash : dropStart? ['/'] rest with
          | none => exact hends
          | some rest' =>
              rw [eq_append_of_dropStart? hslash] at hends
              exact hends.of_append_slash [] hname

/-- The last rules decide when one of them is about a path; if they are all read the other way
around, then the path is kept. -/
theorem verdict?_of_negated {base path : List Char} {front later : List IgnoreRule}
    (hneg : ∀ r ∈ later, r.negated = true) {r : IgnoreRule} (hr : r ∈ later) {isDirectory : Bool}
    (hcovers : r.covers (String.ofList (seenFrom base path)) isDirectory = true) :
    (⟨base, front ++ later⟩ : IgnoreRules).verdict? path isDirectory = some .keep := by
  have hfound : (later.reverse.find? fun r =>
      r.covers (String.ofList (seenFrom base path)) isDirectory).isSome :=
    List.find?_isSome.mpr ⟨r, List.mem_reverse.mpr hr, hcovers⟩
  obtain ⟨last, hlast⟩ := Option.isSome_iff_exists.mp hfound
  have hnonempty : ¬ (front ++ later).isEmpty = true := by
    rw [List.isEmpty_iff]
    exact List.ne_nil_of_mem (List.mem_append_right front hr)
  have hkeep : last.verdict = .keep := by
    rw [IgnoreRule.verdict, hneg last (List.mem_reverse.mp (List.mem_of_find?_eq_some hlast)),
      if_pos rfl]
  rw [verdict?, if_neg hnonempty]
  dsimp only
  rw [List.reverse_append, List.find?_append, hlast, Option.some_or, Option.map_some, hkeep]

end IgnoreRules

/-! ### The verdict -/

namespace Patterns

/-- The lines behind those of what must match. -/
def laterLines (s : Config.Scan) : List String := ignoredLines ++ s.extraIgnore.map ("!" ++ ·)

theorem exists_of_mem_laterLines {s : Config.Scan} {line : String} (h : line ∈ laterLines s) :
    ∃ rest, line.toList = '!' :: rest := by
  rcases List.mem_append.mp h with h | h
  · obtain ⟨name, -, hline⟩ := List.mem_flatMap.mp h
    rcases List.mem_pair.mp hline with rfl | rfl
    · exact ⟨(name ++ "/**").toList, by simp⟩
    · exact ⟨name.toList, by simp⟩
  · obtain ⟨pattern, -, rfl⟩ := List.mem_map.mp h
    exact ⟨pattern.toList, by simp⟩

/-- The rules behind those of what must match. -/
def laterRules (s : Config.Scan) : List IgnoreRule :=
  (laterLines s).filterMap fun line => IgnoreRule.read? false line.toList

theorem ofConfig_eq (s : Config.Scan) (root : Path) : ofConfig s root =
    ⟨⟨IgnoreRules.withoutDot root.text.toList,
      (s.includes.filterMap fun line => IgnoreRule.read? false line.toList) ++ laterRules s⟩⟩ := by
  rw [ofConfig, List.append_assoc, List.filterMap_append]
  rfl

theorem negated_of_mem_laterRules {s : Config.Scan} {r : IgnoreRule} (h : r ∈ laterRules s) :
    r.negated = true := by
  obtain ⟨line, hline, hread⟩ := List.mem_filterMap.mp h
  obtain ⟨rest, hrest⟩ := exists_of_mem_laterLines hline
  exact IgnoreRule.negated_of_read? (hrest ▸ hread)

theorem anywhere_mem_laterRules (s : Config.Scan) {name : String} (h : name ∈ ignoredNames) :
    IgnoreRule.anywhere name ∈ laterRules s := by
  have hline : "!" ++ name ∈ ignoredLines := List.mem_flatMap.mpr ⟨name, h, by simp⟩
  exact List.mem_filterMap.mpr
    ⟨_, List.mem_append_left _ hline, IgnoreRule.read?_ignoredNames name h⟩

/-- What is left out by its name is left out whatever the settings say: what must match comes before
the names, and what comes after them leaves out yet more. -/
theorem verdict?_of_endsIn (s : Config.Scan) {root : Path} (hroot : root.text ≠ "") {name : String}
    (hname : name ∈ ignoredNames) {below : List Char} (hbelow : EndsIn name.toList below)
    (hpath : EndsIn name.toList (root.text.toList ++ below)) (isDirectory : Bool) :
    (ofConfig s root).verdict? (IgnoreRules.withoutDot (root.text.toList ++ below)) isDirectory =
      some .ignore := by
  have hseparator : ∀ n ∈ ignoredNames, '/' ∉ n.toList := by decide
  have hshown := IgnoreRules.seenFrom_endsIn (hseparator name hname)
    (mt String.toList_eq_nil_iff.mp hroot) hbelow hpath
  rw [ofConfig_eq, verdict?, IgnoreRules.verdict?_of_negated
    (fun _ => negated_of_mem_laterRules) (anywhere_mem_laterRules s hname)
    (IgnoreRule.covers_anywhere hshown isDirectory)]
  rfl

end Patterns

end Trellis
