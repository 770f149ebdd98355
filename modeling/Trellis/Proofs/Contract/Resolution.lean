import Trellis.Proofs.Contract.Resolver

/-! # Resolution and expansion

The members that a resolution gives are those of the type written out.

* `Expansion.ofNameAt` writes a name out with a bound for the imports that are followed to its
  declaration. Its equations go by what the name leads to.
* `Resolver.named_meets` ties a name that is resolved to the name written out.
* `Resolver.resolve_eq`: a resolution that ends gives the members of the type written out, and leaves
  the set empty, if its budget is no more than the imports that may be followed. -/

namespace Trellis

open Syntax TypeMember

/-! ### Names written out -/

namespace Expansion

/-- A name written out, with a bound for the imports that are followed. -/
def ofNameAt (modules : Modules) (reach level : Nat) (places : List Place) (s : Source)
    (name : String) : Expansion :=
  let (ls, found) := locate modules reach places s name
  match found with
  | none => through ls nothing
  | some f =>
    let inside := ofType modules (level - ls.length - 1) f.places f.source
    through ls <|
      match f.declaration.kind with
      | .interfaceDeclaration =>
        join ((basesOf f.declaration).map inside ++
          ((f.declaration.part? .body).map fun b => own (ofBody f.source b)).toList)
      | _ => ((f.declaration.part? .value).map inside).getD nothing

theorem ofName_eq (modules : Modules) (level : Nat) (places : List Place) (s : Source)
    (name : String) :
    ofName modules level places s name = ofNameAt modules modules.reach level places s name := rfl

theorem members_nothing : nothing.members = [] := by
  rw [nothing, members]

theorem members_through (ls : List Lookup) (e : Expansion) : (through ls e).members = e.members := by
  rw [members]

section equations
variable {modules : Modules} {reach level : Nat} {places : List Place} {s : Source} {name : String}

/-- A name written out has the members of the declaration that is found. -/
theorem members_ofNameAt : (ofNameAt modules reach level places s name).members =
    (locate modules reach places s name).2.elim [] fun f =>
      ((typesOf f.declaration).flatMap fun t =>
        (ofType modules (level - (locate modules reach places s name).1.length - 1) f.places f.source
          t).members) ++ ownOf f.source f.declaration := by
  unfold ofNameAt
  cases locate modules reach places s name with
  | mk ls found =>
      cases found with
      | none =>
          dsimp only
          rw [members_through, members_nothing]
          rfl
      | some f =>
          dsimp only [Option.elim_some]
          rw [members_through]
          unfold typesOf ownOf
          generalize f.declaration.kind = kind
          split
          · rw [members, membersOfAll_eq, List.flatMap_append, List.flatMap_map]
            cases f.declaration.part? .body with
            | none => rfl
            | some b => simp [members]
          · cases f.declaration.part? .value with
            | none => simp [members_nothing]
            | some v => simp

/-- A name that is being written out already stands for nothing. -/
theorem members_ofNameAt_of_mem (h : placeOf s name ∈ places) :
    (ofNameAt modules reach level places s name).members = [] := by
  have hlocate : locate modules reach places s name = ([], none) := by
    unfold locate
    rw [if_pos (List.contains_iff_mem.mpr h)]
  rw [members_ofNameAt, hlocate]
  rfl

/-- A name that is declared stands for the types and the members of its declaration. -/
theorem members_ofNameAt_of_declaration (h : placeOf s name ∉ places) {d : Tree}
    (hd : declaration? s name = some d) :
    (ofNameAt modules reach level places s name).members =
      ((typesOf d).flatMap fun t =>
        (ofType modules (level - 1) (placeOf s name :: places) s t).members) ++ ownOf s d := by
  have hlocate : locate modules reach places s name =
      ([], some ⟨s, d, placeOf s name :: places⟩) := by
    unfold locate
    rw [if_neg fun hc => h (List.contains_iff_mem.mp hc)]
    dsimp only
    rw [hd]
  rw [members_ofNameAt, hlocate]
  rfl

/-- A name that is imported stands for what it stands for there. -/
theorem members_ofNameAt_of_import (h : placeOf s name ∉ places)
    (hd : declaration? s name = none) {specifier imported : String} {m : Source}
    (hi : import? s name = some (specifier, imported))
    (hl : modules.lookup s.path specifier = .found m) :
    (ofNameAt modules (reach + 1) level places s name).members =
      (ofNameAt modules reach (level - 1) (placeOf s name :: places) m imported).members := by
  have hlocate : locate modules (reach + 1) places s name =
      (.found m :: (locate modules reach (placeOf s name :: places) m imported).1,
        (locate modules reach (placeOf s name :: places) m imported).2) := by
    rw [locate, if_neg fun hc => h (List.contains_iff_mem.mp hc)]
    dsimp only
    rw [hd, hi]
    dsimp only
    rw [hl]
  rw [members_ofNameAt, members_ofNameAt, hlocate]
  generalize (locate modules reach (placeOf s name :: places) m imported).1 = ls
  have hlevel : level - (Lookup.found m :: ls).length - 1 = level - 1 - ls.length - 1 := by
    rw [List.length_cons]
    omega
  rw [hlevel]

/-- A name that is neither declared nor imported stands for nothing. -/
theorem members_ofNameAt_of_missing (h : placeOf s name ∉ places)
    (hd : declaration? s name = none)
    (hno : ∀ specifier imported, import? s name = some (specifier, imported) →
      ∀ m, modules.lookup s.path specifier ≠ .found m) :
    (ofNameAt modules reach level places s name).members = [] := by
  have hlocate : (locate modules reach places s name).2 = none := by
    unfold locate
    rw [if_neg fun hc => h (List.contains_iff_mem.mp hc)]
    dsimp only
    rw [hd]
    cases hi : import? s name with
    | none => rfl
    | some found =>
        obtain ⟨specifier, imported⟩ := found
        cases reach with
        | zero => rfl
        | succ reach =>
            dsimp only
            cases hl : modules.lookup s.path specifier with
            | found m => exact absurd hl (hno specifier imported hi m)
            | missing => rfl
            | refused dialect text => rfl
  rw [members_ofNameAt, hlocate]
  rfl

end equations

end Expansion

namespace Resolver

open Expansion (placeOf ofType ofName ofNameAt)

/-! ### What a resolution gives -/

/-- Nothing is asked of the calls, and the budget may be exhausted. -/
def ifEnds : Terms := ⟨fun _ => True, fun _ => True, True⟩

/-- Whether a budget of nested names is not more than the imports that may be followed, or there are
no modules to follow them to. -/
def Covers (modules : Modules) (reach budget : Nat) : Prop :=
  budget ≤ reach + 1 ∨ ∀ p specifier m, modules.lookup p specifier ≠ .found m

theorem Covers.of_succ {modules : Modules} {reach budget : Nat}
    (h : Covers modules reach (budget + 1)) : Covers modules reach budget :=
  h.imp_left Nat.le_of_succ_le

theorem flatten_eq {inner : Tree → List PropMember} {ts : List Tree}
    {parts : List (List PropMember)} (h : List.Forall₂ (fun t ms => ms = inner t) ts parts) :
    parts.flatten = ts.flatMap inner := by
  induction h with
  | nil => rfl
  | cons h _ ih => rw [List.flatten_cons, List.flatMap_cons, h, ih]

theorem Gives.members_eq {named : String → List PropMember} {inner : Tree → List PropMember}
    {form : Expansion.Form} {ms : List PropMember}
    (h : Gives (fun n ms => ms = named n) (fun t ms => ms = inner t) form ms) :
    ms = form.members named inner := by
  cases h with
  | own => rfl
  | name h => exact h
  | bare => rfl
  | wrapped h => rw [h]; rfl
  | parts h => exact flatten_eq h

/-- Beyond the depth nothing is written out. -/
theorem members_ofType_deep {modules : Modules} {places : List Expansion.Place} {s : Source}
    {d : Nat} {type : Tree} (hd : maxDepth < d) :
    [] = (ofType modules (maxDepth + 1 - d) places s type).members := by
  rw [Nat.sub_eq_zero_of_le hd, ofType, Expansion.members_nothing]

/-- The members of a type written out fit those of names written out. -/
theorem fits_ofType (modules : Modules) (places : List Expansion.Place) (s : Source) :
    Fits s (fun d n ms => ms = (ofNameAt modules modules.reach (maxDepth + 1 - d) places s n).members)
      (fun d t ms => ms = (ofType modules (maxDepth + 1 - d) places s t).members) where
  none {d type} hp := by
    cases maxDepth + 1 - d with
    | zero => rw [ofType, Expansion.members_nothing]
    | succ level =>
        rw [Expansion.ofType_succ, hp]
        exact Expansion.members_nothing.symm
  form {d type t ms} hd hp h := by
    have hlevel : maxDepth + 1 - d = maxDepth + 1 - (d + 1) + 1 := by omega
    rw [hlevel, Expansion.ofType_succ, hp, Option.map_some, Option.getD_some,
      Expansion.members_ofLevel]
    simp only [Expansion.ofName_eq]
    exact h.members_eq

/-- What is behind a name, if the resolution ends, are the members of the name written out. -/
theorem named_meets (modules : Modules) (budget : Nat) (hreach : Covers modules modules.reach budget)
    {reach : Nat} (hcovers : Covers modules reach budget) (depth : Nat) (chain : List Key)
    (places : List Expansion.Place) (s : Source) (name : String) :
    Meets ifEnds places (named modules.lookup budget depth chain s name) fun ms =>
      ms = (ofNameAt modules reach (maxDepth + 1 - depth) places s name).members := by
  induction budget generalizing reach depth chain places s name with
  | zero => exact .exhausted trivial
  | succ budget ih =>
      refine .named (Q := fun t ms => ms = (ofType modules (maxDepth + 1 - (depth + 1))
        (placeOf s name :: places) s t).members) ?_ (fun _ _ => trivial) ?_ ?_ ?_
      · exact fun hmem => (Expansion.members_ofNameAt_of_mem hmem).symm
      · intro hnew _ d hd
        refine ⟨fun t _ => ?_, fun parts hparts => ?_⟩
        · exact .members (fits_ofType modules _ s) (fun hd _ => members_ofType_deep hd)
            (fun _ _ => trivial) fun d' n _ _ _ => ih hreach.of_succ hreach.of_succ d' _ _ s n
        · rw [Expansion.members_ofNameAt_of_declaration hnew hd, flatten_eq hparts]
          rfl
      · intro hnew _ hd specifier imported m hi hl
        cases budget with
        | zero => exact .exhausted trivial
        | succ budget =>
            -- One import is followed, so there is one less to come.
            obtain ⟨reach, rfl⟩ : ∃ n, reach = n + 1 := by
              rcases hcovers with h | h
              · exact ⟨reach - 1, by omega⟩
              · exact absurd hl (h _ _ _)
            have hcovers' : Covers modules reach (budget + 1) :=
              hcovers.imp_left fun h => Nat.le_of_succ_le_succ h
            rw [Expansion.members_ofNameAt_of_import hnew hd hi hl]
            exact ih hreach.of_succ hcovers' (depth + 1) _ _ m imported
      · intro hnew hd hno
        exact (Expansion.members_ofNameAt_of_missing hnew hd hno).symm

/-- A resolution that ends gives the members of the type written out, and leaves the set empty. -/
theorem resolve_eq {modules : Modules} {budget : Nat} (hcovers : Covers modules modules.reach budget)
    {s : Source} {type : Tree} {ms : List PropMember}
    (h : (resolve modules.lookup budget s type).value = some ms) :
    (resolve modules.lookup budget s type).inProgress = [] ∧
      ms = (ofType modules Expansion.levels [] s type).members := by
  have hmeets : Meets ifEnds [] (members (named modules.lookup budget) 0 [] s type) fun ms =>
      ms = (ofType modules (maxDepth + 1 - 0) [] s type).members :=
    .members (fits_ofType modules [] s) (fun hd _ => members_ofType_deep hd)
      (fun _ _ => trivial) fun d n _ _ _ => named_meets modules budget hcovers hcovers d [] [] s n
  have hmet := hmeets fun _ _ => trivial
  exact ⟨hmet.inProgress ms h, hmet.value ms h⟩

end Resolver

end Trellis
