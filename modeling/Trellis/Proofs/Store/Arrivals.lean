import Mathlib.Data.String.Basic
import Trellis.Proofs.Store.Parents

/-! # Where walks arrive

Walks without a bound on their steps, taken apart at the directories on their way.

* `Store.Arrives` says that a walk with enough steps leads somewhere. `Store.locate_iff_arrives`: paths
  are followed with enough steps, if no link of the store is longer than a path can be.
* `Store.Brings` says that first steps bring every walk that goes on to a directory.
  `Store.exists_brings`: the first steps of a walk that arrives do so.
* `Store.Descends` says that names lead down through directories. `Descends.brings_back`: as many steps
  up lead back. -/

namespace Trellis

namespace Store

/-! ### Enough steps -/

/-- Whether a walk with enough steps leads somewhere. -/
def Arrives (s : Store) (links : Nat) (here : Place) (rest : List String) (l : Located) : Prop :=
  ∃ fuel, s.Leads true fuel links here rest l

/-- Whether no link is longer than a path can be. -/
def HasShortLinks (s : Store) : Prop :=
  ∀ x target, s.get? x = some (.link target) → target.text.utf8ByteSize < pathLimit

section bounds
variable {s : Store} {fuel links : Nat} {here : Place} {rest : List String} {l : Located} {p : Path}

/-- There are no more pieces that are not empty than characters. -/
theorem length_stepsOf_le (cs : List Char) : (stepsOf cs).length ≤ cs.length := by
  suffices h : ∃ first more, Path.pieces cs = first :: more ∧
      first.length + (more.filter fun p => !p.isEmpty).length ≤ cs.length by
    obtain ⟨first, more, hpieces, hle⟩ := h
    rw [stepsOf, List.length_map, hpieces, List.filter_cons]
    split
    · next hne =>
      have hpos : 0 < first.length := List.length_pos_of_ne_nil (by simpa using hne)
      rw [List.length_cons]
      omega
    · omega
  induction cs with
  | nil => exact ⟨[], [], rfl, Nat.le_refl 0⟩
  | cons c cs ih =>
      obtain ⟨first, more, hpieces, hle⟩ := ih
      unfold Path.pieces at hpieces ⊢
      rw [Text.Search.splitWhere.eq_2, hpieces]
      dsimp only
      split
      · refine ⟨_, _, rfl, ?_⟩
        rw [List.filter_cons, List.length_cons, List.length_nil, Nat.zero_add]
        split
        · next hne =>
          have hpos : 0 < first.length := List.length_pos_of_ne_nil (by simpa using hne)
          rw [List.length_cons]
          omega
        · omega
      · refine ⟨_, _, rfl, ?_⟩
        rw [List.length_cons, List.length_cons]
        omega

/-- A character is at least one byte. -/
theorem length_le_utf8ByteSize (text : String) : text.toList.length ≤ text.utf8ByteSize := by
  rw [← String.ofList_toList (s := text), String.utf8ByteSize_ofList, String.toList_ofList]
  induction text.toList with
  | nil => exact Nat.zero_le _
  | cons c cs ih =>
      have hpos := c.utf8Size_pos
      rw [String.utf8Len_cons, List.length_cons]
      omega

theorem length_steps_le (text : String) : (steps text).length ≤ text.utf8ByteSize :=
  Nat.le_trans (length_stepsOf_le text.toList) (length_le_utf8ByteSize text)

/-- The separator at the end of a path stands for the step that it adds. -/
theorem length_route_le (p : Path) : (route p).length ≤ p.text.utf8ByteSize := by
  unfold route
  cases hw : wantsDirectory p.text with
  | false =>
      rw [if_neg Bool.false_ne_true, List.append_nil]
      exact length_steps_le _
  | true =>
      obtain ⟨before, hbefore⟩ := List.getLast?_eq_some_iff.mp (of_decide_eq_true hw)
      have hsteps : steps p.text = stepsOf before := by
        rw [← stepsOf_concat, ← hbefore]
        rfl
      have hlength := congrArg List.length hbefore
      rw [List.length_append, List.length_singleton] at hlength
      have hbytes := length_le_utf8ByteSize p.text
      have hle := length_stepsOf_le before
      rw [if_pos rfl, List.length_append, List.length_singleton, hsteps]
      omega

/-- With short links, each link that may still come adds less steps than a path has bytes. -/
theorem Arrives.leads (hs : s.HasShortLinks) (h : s.Arrives links here rest l)
    (hfuel : rest.length + links * pathLimit < fuel) : s.Leads true fuel links here rest l := by
  obtain ⟨enough, h⟩ := h
  induction h generalizing fuel with
  | here =>
      obtain ⟨fuel, rfl⟩ := Nat.exists_eq_add_one_of_ne_zero (Nat.ne_zero_of_lt hfuel)
      exact .here
  | dot _ ih =>
      obtain ⟨fuel, rfl⟩ := Nat.exists_eq_add_one_of_ne_zero (Nat.ne_zero_of_lt hfuel)
      rw [List.length_cons] at hfuel
      exact .dot (ih (by omega))
  | up _ ih =>
      obtain ⟨fuel, rfl⟩ := Nat.exists_eq_add_one_of_ne_zero (Nat.ne_zero_of_lt hfuel)
      rw [List.length_cons] at hfuel
      exact .up (ih (by omega))
  | free hname hget =>
      obtain ⟨fuel, rfl⟩ := Nat.exists_eq_add_one_of_ne_zero (Nat.ne_zero_of_lt hfuel)
      exact .free hname hget
  | down hname hget _ ih =>
      obtain ⟨fuel, rfl⟩ := Nat.exists_eq_add_one_of_ne_zero (Nat.ne_zero_of_lt hfuel)
      rw [List.length_cons] at hfuel
      exact .down hname hget (ih (by omega))
  | file hname hget =>
      obtain ⟨fuel, rfl⟩ := Nat.exists_eq_add_one_of_ne_zero (Nat.ne_zero_of_lt hfuel)
      exact .file hname hget
  | link _ _ hfollow => cases hfollow
  | @jump _ links _ name rest target _ hname hget hend htext _ ih =>
      obtain ⟨fuel, rfl⟩ := Nat.exists_eq_add_one_of_ne_zero (Nat.ne_zero_of_lt hfuel)
      have hshort := hs _ _ hget
      have hsteps := length_steps_le target.text
      rw [List.length_cons, Nat.succ_mul] at hfuel
      exact .jump hname hget hend htext (ih (by rw [List.length_append]; omega))

/-- Paths are followed with enough steps, if no link is longer than a path can be. -/
theorem locate_iff_arrives (hs : s.HasShortLinks) :
    s.locate true p = .ok l ↔ IsPath p ∧ s.Arrives linkLimit (s.start p) (route p) l := by
  rw [locate_ok_iff]
  refine and_congr_right fun hp => ⟨fun h => ⟨_, h⟩, fun h => h.leads hs ?_⟩
  have hroute := length_route_le p
  have hsize := hp.2.2
  rw [stepLimit, Nat.succ_mul]
  omega

end bounds

/-! ### Steps one by one -/

section steps
variable {s : Store} {links links' : Nat} {here x : Place} {name : String}
  {first more rest : List String} {l : Located}

theorem arrives_nil : s.Arrives links here [] l ↔ l = .at here .directory := by
  constructor
  · rintro ⟨_, h⟩
    cases h
    rfl
  · rintro rfl
    exact ⟨1, .here⟩

theorem arrives_dot : s.Arrives links here ("." :: rest) l ↔ s.Arrives links here rest l := by
  constructor
  · rintro ⟨fuel, h⟩
    cases fuel with
    | zero => cases h.walk
    | succ fuel => exact ⟨fuel, leads_of_walk h.walk⟩
  · rintro ⟨fuel, h⟩
    exact ⟨fuel + 1, .dot h⟩

theorem arrives_up :
    s.Arrives links here (".." :: rest) l ↔ s.Arrives links here.dropLast rest l := by
  constructor
  · rintro ⟨fuel, h⟩
    cases fuel with
    | zero => cases h.walk
    | succ fuel => exact ⟨fuel, leads_of_walk h.walk⟩
  · rintro ⟨fuel, h⟩
    exact ⟨fuel + 1, .up h⟩

theorem arrives_down (hname : IsName name) (hget : s.get? (here ++ [name]) = some .directory) :
    s.Arrives links here (name :: rest) l ↔ s.Arrives links (here ++ [name]) rest l := by
  constructor
  · rintro ⟨_, h⟩
    cases h with
    | dot => exact absurd rfl hname.1
    | up => exact absurd rfl hname.2.1
    | down _ _ h => exact ⟨_, h⟩
    | free _ hget' | file _ hget' | link _ hget' | jump _ hget' => cases hget.symm.trans hget'
  · rintro ⟨fuel, h⟩
    exact ⟨fuel + 1, .down hname hget h⟩

theorem arrives_jump (hname : IsName name) {target : Path}
    (hget : s.get? (here ++ [name]) = some (.link target)) (htext : target.text ≠ "") :
    s.Arrives (links + 1) here (name :: rest) l ↔
      s.Arrives links (if target.isAbsolute then [] else here) (steps target.text ++ rest) l := by
  constructor
  · rintro ⟨_, h⟩
    cases h with
    | dot => exact absurd rfl hname.1
    | up => exact absurd rfl hname.2.1
    | link _ _ hfollow => cases hfollow
    | jump _ hget' _ _ h =>
        cases hget.symm.trans hget'
        exact ⟨_, h⟩
    | free _ hget' | down _ hget' | file _ hget' => cases hget.symm.trans hget'
  · rintro ⟨fuel, h⟩
    exact ⟨fuel + 1, .jump hname hget (by simp) htext h⟩

/-! ### Directories on the way -/

/-- Whether first steps bring every walk that goes on to a directory, with so many links left. -/
def Brings (s : Store) (links : Nat) (here : Place) (first : List String) (links' : Nat)
    (x : Place) : Prop :=
  ∀ rest, rest ≠ [] → ∀ l, s.Arrives links here (first ++ rest) l ↔ s.Arrives links' x rest l

theorem Brings.trans {second : List String} {links'' : Nat} {y : Place}
    (h : s.Brings links here first links' x) (h' : s.Brings links' x second links'' y) :
    s.Brings links here (first ++ second) links'' y := by
  intro rest hrest l
  have hne : second ++ rest ≠ [] := fun hnil => hrest (List.append_eq_nil_iff.mp hnil).2
  rw [List.append_assoc, h _ hne l, h' rest hrest l]

/-- The first steps of a walk that arrives bring it to a directory. -/
theorem exists_brings (h : s.Arrives links here (first ++ more) l) (hmore : more ≠ []) :
    ∃ links' x, s.Brings links here first links' x := by
  obtain ⟨fuel, h⟩ := h
  generalize hsteps : first ++ more = rest at h
  have hnil {links : Nat} {here : Place} : ∃ links' x, s.Brings links here [] links' x :=
    ⟨links, here, fun _ _ _ => Iff.rfl⟩
  induction h generalizing first with
  | here => exact absurd (List.append_eq_nil_iff.mp hsteps).2 hmore
  | dot _ ih =>
      cases first with
      | nil => exact hnil
      | cons name first =>
          obtain ⟨rfl, hrest⟩ := List.cons.inj hsteps
          obtain ⟨links', x, hx⟩ := ih hrest
          exact ⟨links', x, fun rest hne l => arrives_dot.trans (hx rest hne l)⟩
  | up _ ih =>
      cases first with
      | nil => exact hnil
      | cons name first =>
          obtain ⟨rfl, hrest⟩ := List.cons.inj hsteps
          obtain ⟨links', x, hx⟩ := ih hrest
          exact ⟨links', x, fun rest hne l => arrives_up.trans (hx rest hne l)⟩
  | down hname hget _ ih =>
      cases first with
      | nil => exact hnil
      | cons name first =>
          obtain ⟨rfl, hrest⟩ := List.cons.inj hsteps
          obtain ⟨links', x, hx⟩ := ih hrest
          exact ⟨links', x, fun rest hne l => (arrives_down hname hget).trans (hx rest hne l)⟩
  | free | file =>
      cases first with
      | nil => exact hnil
      | cons name first =>
          exact absurd (List.append_eq_nil_iff.mp (List.cons.inj hsteps).2).2 hmore
  | link _ _ hfollow => cases hfollow
  | @jump _ _ _ _ _ target _ hname hget _ htext _ ih =>
      cases first with
      | nil => exact hnil
      | cons name first =>
          obtain ⟨rfl, rfl⟩ := List.cons.inj hsteps
          obtain ⟨links', x, hx⟩ := ih (List.append_assoc (steps target.text) first more)
          refine ⟨links', x, fun rest hne l => (arrives_jump hname hget htext).trans ?_⟩
          rw [← hx rest hne l, List.append_assoc]
          rfl

/-- What two walks that go on have in common before does not tell them apart. -/
theorem Arrives.append_congr (first : List String) {rest' : List String} (hrest : rest ≠ []) (hrest' : rest' ≠ [])
    (h : ∀ links here l, s.Arrives links here rest l → s.Arrives links here rest' l)
    (hl : s.Arrives links here (first ++ rest) l) : s.Arrives links here (first ++ rest') l := by
  obtain ⟨links', x, hx⟩ := exists_brings hl hrest
  exact (hx rest' hrest' l).mpr (h _ _ _ ((hx rest hrest l).mp hl))

/-- Dots before the last step do not matter. -/
theorem arrives_filter (hmore : more ≠ []) :
    s.Arrives links here (first.filter (· ≠ ".") ++ more) l ↔
      s.Arrives links here (first ++ more) l := by
  induction first generalizing links here l with
  | nil => rfl
  | cons name first ih =>
      by_cases hdot : name = "."
      · subst hdot
        rw [List.filter_cons_of_neg (by simp), List.cons_append]
        exact ih.trans arrives_dot.symm
      · rw [List.filter_cons_of_pos (by simpa using hdot)]
        have hne {first : List String} : first ++ more ≠ [] :=
          fun hnil => hmore (List.append_eq_nil_iff.mp hnil).2
        constructor
        · exact fun h => h.append_congr [name] hne hne fun _ _ _ => ih.mp
        · exact fun h => h.append_congr [name] hne hne fun _ _ _ => ih.mpr

/-- A walk that ends with a dot, or with a step up, arrives at a directory. -/
theorem eq_directory_of_arrives (hname : name = "." ∨ name = "..")
    (h : s.Arrives links here (first ++ [name]) l) : ∃ x, l = .at x .directory := by
  obtain ⟨links', x, hx⟩ := exists_brings h (List.cons_ne_nil _ _)
  have hl := (hx _ (List.cons_ne_nil _ _) l).mp h
  rcases hname with rfl | rfl
  · exact ⟨x, arrives_nil.mp (arrives_dot.mp hl)⟩
  · exact ⟨x.dropLast, arrives_nil.mp (arrives_up.mp hl)⟩

/-! ### Down and up again -/

/-- Whether names lead down from a directory through directories, none of which is a link. -/
inductive Descends (s : Store) : Place → List String → Prop
  /-- There are no names. -/
  | here {x : Place} : Descends s x []
  /-- The first name is that of a directory. -/
  | down {x : Place} {name : String} {rest : List String} : IsName name →
      s.get? (x ++ [name]) = some .directory → Descends s (x ++ [name]) rest →
      Descends s x (name :: rest)

/-- Names that lead down and as many steps up lead back. -/
theorem Descends.brings_back {names : List String} (h : s.Descends x names) (links : Nat) :
    s.Brings links x (names ++ List.replicate names.length "..") links x := by
  induction h with
  | here => exact fun _ _ _ => Iff.rfl
  | @down x name names hname hget _ ih =>
      intro rest hrest l
      have hsteps : name :: names ++ List.replicate (name :: names).length ".." ++ rest =
          name :: (names ++ List.replicate names.length ".." ++ (".." :: rest)) := by
        rw [List.length_cons, List.replicate_succ']
        simp only [List.cons_append, List.append_assoc, List.nil_append]
      rw [hsteps, arrives_down hname hget, ih _ (List.cons_ne_nil _ _), arrives_up,
        List.dropLast_concat]

end steps

end Store

end Trellis
