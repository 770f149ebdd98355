import Trellis.Proofs.Contract.Resolution

/-! # Modules that declare alike

What a type written out depends on: not on the modules themselves, but on what they declare and
import.

* `Source.DeclaresBy` says that two sources with one path import the same, and declare what is
  related. `Lookup.Alike` says that two specifiers lead to related modules, or that neither leads to
  one.
* `Expansion.Translates` says what related types have in common: what they are made of is related,
  and so are their own members. `Modules.Agree` says that an analysis may ask the same of two
  collections of modules. `Modules.Agree.forall₂_members`: then related types have related members.
* `Source.DeclaresAlike` is the case of the same declarations, and `Modules.Agree.members_ofType`
  that of one type in both sources. -/

namespace Trellis

open TypeMember

/-! ### Related declarations -/

/-- Whether two sources with one path import the same and declare what is related. -/
structure Source.DeclaresBy (D : Tree → Tree → Prop) (m m' : Source) : Prop where
  /-- They have one path. -/
  path : m'.path = m.path
  /-- They declare related types. -/
  declaration : ∀ name, Option.Rel D (declaration? m name) (declaration? m' name)
  /-- They import the same. -/
  imported : ∀ name, TypeMember.import? m' name = TypeMember.import? m name

theorem Source.DeclaresBy.placeOf_eq {D : Tree → Tree → Prop} {m m' : Source}
    (h : m.DeclaresBy D m')
    (name : String) : Expansion.placeOf m' name = Expansion.placeOf m name := by
  rw [Expansion.placeOf, h.path, Expansion.placeOf]

/-- Whether two specifiers lead to related modules, or neither leads to a module. -/
inductive Lookup.Alike (R : Source → Source → Prop) : Lookup → Lookup → Prop
  /-- They lead to related modules. -/
  | found {m m' : Source} : R m m' → Alike R (.found m) (.found m')
  /-- They lead to no modules. -/
  | lost {l l' : Lookup} : (∀ m, l ≠ .found m) → (∀ m, l' ≠ .found m) → Alike R l l'

/-- Whether an analysis may ask the same of two collections of modules, for related sources. -/
inductive Modules.Agree (R : Source → Source → Prop) (m m' : Source) : Modules → Modules → Prop
  /-- They are related, and their bounds are the same. -/
  | bounded {M M' : Modules} : M'.reach = M.reach →
      (∀ p specifier, (M.lookup p specifier).Alike R (M'.lookup p specifier)) → Agree R m m' M M'
  /-- They are those of stores in which the sources were read. -/
  | stores {s t : Store} : m.ReadIn s → m'.ReadIn t →
      (∀ p specifier, (s.lookup p specifier).Alike R (t.lookup p specifier)) →
      Agree R m m' s.modules t.modules

/-- The trees that are no comments. -/
def Tree.written (ts : List Tree) : List Tree := ts.filter (·.kind ≠ .comment)

/-- What is read of trees, and not of comments, is read of those that are no comments. -/
theorem Tree.flatMap_written {α : Type} {f : Tree → List α} (hf : ∀ c, c.kind = .comment → f c = [])
    (ts : List Tree) : (written ts).flatMap f = ts.flatMap f := by
  rw [written]
  induction ts with
  | nil => rfl
  | cons c ts ih =>
      rw [List.flatMap_cons, ← ih, List.filter_cons]
      by_cases hc : c.kind = .comment
      · simp [hc, hf c hc]
      · simp [hc]

namespace Expansion

/-- A comment has no members. -/
theorem members_ofType_comment (M : Modules) (levels : Nat) (places : List Place) (m : Source)
    {c : Tree}
    (hc : c.kind = .comment) : (ofType M levels places m c).members = [] := by
  cases levels with
  | zero =>
      unfold ofType
      exact members_nothing
  | succ level =>
      obtain ⟨k, l, x, n, ts⟩ := c
      have hk : k = .comment := hc
      rw [ofType_succ, hk, peel, if_neg (by decide), Option.map_some, Option.getD_some,
        members_ofLevel]
      rfl

/-- Whether two types are made of what is related: members by `P`, types by `A`. -/
inductive Form.Alike (P : PropMember → PropMember → Prop) (A : Tree → Tree → Prop) :
    Form → Form → Prop
  /-- They are members in braces. -/
  | own {ms ms' : List PropMember} (h : List.Forall₂ P ms ms') : Alike P A (.own ms) (.own ms')
  /-- They are one name. -/
  | name (n : String) : Alike P A (.name n) (.name n)
  /-- They are made of arguments in one way. -/
  | wrapped {wrap : List PropMember → List PropMember} {a a' : Option Tree}
      (hwrap : ∀ ms ms', List.Forall₂ P ms ms' → List.Forall₂ P (wrap ms) (wrap ms'))
      (h : Option.Rel A a a') : Alike P A (.wrapped wrap a) (.wrapped wrap a')
  /-- They are several types, with comments between them. -/
  | parts {ts ts' : List Tree} (h : List.Forall₂ A (Tree.written ts) (Tree.written ts')) :
      Alike P A (.parts ts) (.parts ts')

section forms
variable {P : PropMember → PropMember → Prop} {A : Tree → Tree → Prop}

/-- Types that are made of what is related have related members. -/
theorem Form.Alike.members {form form' : Form} (h : Form.Alike P A form form')
    {named named' : String → List PropMember} {inner inner' : Tree → List PropMember}
    (hnamed : ∀ n, List.Forall₂ P (named n) (named' n))
    (hcomment : ∀ t, t.kind = .comment → inner t = [] ∧ inner' t = [])
    (hinner : ∀ t t', A t t' → List.Forall₂ P (inner t) (inner' t')) :
    List.Forall₂ P (form.members named inner) (form'.members named' inner') := by
  cases h with
  | own h => exact h
  | name n => exact hnamed n
  | wrapped hwrap h =>
      refine hwrap _ _ ?_
      cases h with
      | none => exact .nil
      | some ha => exact hinner _ _ ha
  | parts h =>
      rw [Form.members, Form.members, ← Tree.flatMap_written fun t ht => (hcomment t ht).1,
        ← Tree.flatMap_written fun t ht => (hcomment t ht).2]
      exact List.rel_flatMap h fun t t' ht => hinner t t' ht

end forms

/-- Whether related sources, declarations and types have what is needed in common for their members
to be related. -/
structure Translates (R : Source → Source → Prop) (D A : Tree → Tree → Prop)
    (P : PropMember → PropMember → Prop) : Prop where
  /-- Related sources declare what is related. -/
  declares : ∀ {m m'}, R m m' → m.DeclaresBy D m'
  /-- Related types are made of what is related. -/
  form : ∀ {m m' t t'}, R m m' → A t t' →
    Option.Rel (Form.Alike P A) ((peel t).map (formOf m)) ((peel t').map (formOf m'))
  /-- Related declarations are made of related types. -/
  types : ∀ {d d'}, D d d' → List.Forall₂ A (Tree.written (typesOf d)) (Tree.written (typesOf d'))
  /-- Related declarations have related members of their own. -/
  own : ∀ {m m' d d'}, R m m' → D d d' → List.Forall₂ P (ownOf m d) (ownOf m' d')

theorem Translates.mono {R R' : Source → Source → Prop} {D A : Tree → Tree → Prop}
    {P : PropMember → PropMember → Prop} (h : Translates R D A P)
    (hR : ∀ {m m'}, R' m m' → R m m') :
    Translates R' D A P :=
  ⟨fun hm => h.declares (hR hm), fun hm ht => h.form (hR hm) ht, h.types,
    fun hm hd => h.own (hR hm) hd⟩

/-- Whether related declarations were found in related modules. -/
structure Found.Alike (R : Source → Source → Prop) (D : Tree → Tree → Prop) (f f' : Found) :
    Prop where
  /-- The modules are related. -/
  source : R f.source f'.source
  /-- The declarations are related. -/
  declaration : D f.declaration f'.declaration
  /-- The places that led to it are the same. -/
  places : f'.places = f.places

/-- Whether a name was followed alike. -/
structure LocatedAlike (R : Source → Source → Prop) (D : Tree → Tree → Prop)
    (r r' : List Lookup × Option Found) : Prop where
  /-- As many modules were looked at. -/
  length : r'.1.length = r.1.length
  /-- What was found is related. -/
  found : Option.Rel (Found.Alike R D) r.2 r'.2

variable {R : Source → Source → Prop} {D A : Tree → Tree → Prop}
  {P : PropMember → PropMember → Prop} {M M' : Modules} {m m' : Source} {places : List Place}
  {name : String}

/-- In related sources a name leads to related declarations. -/
theorem locate_alike (hR : ∀ {m m'}, R m m' → m.DeclaresBy D m')
    (hl : ∀ p specifier, (M.lookup p specifier).Alike R (M'.lookup p specifier)) (reach : Nat)
    (places : List Place) (name : String) (h : R m m') :
    LocatedAlike R D (locate M reach places m name) (locate M' reach places m' name) := by
  have hlost (ls : List Lookup) : LocatedAlike R D (ls, none) (ls, none) := ⟨rfl, .none⟩
  have halike := hR h
  have hdeclaration := halike.declaration name
  induction reach generalizing places m m' name with
  | zero =>
      unfold locate
      rw [halike.placeOf_eq, halike.imported]
      generalize declaration? m name = d at hdeclaration
      generalize declaration? m' name = d' at hdeclaration
      split
      · exact hlost []
      · cases hdeclaration with
        | some hd => exact ⟨rfl, .some ⟨h, hd, rfl⟩⟩
        | none => cases import? m name <;> exact hlost []
  | succ reach ih =>
      unfold locate
      rw [halike.placeOf_eq, halike.imported, halike.path]
      generalize declaration? m name = d at hdeclaration
      generalize declaration? m' name = d' at hdeclaration
      split
      · exact hlost []
      · cases hdeclaration with
        | some hd => exact ⟨rfl, .some ⟨h, hd, rfl⟩⟩
        | none =>
            cases import? m name with
            | none => exact hlost []
            | some found =>
                obtain ⟨specifier, imported⟩ := found
                have hlookup := hl m.path specifier
                dsimp only
                generalize M.lookup m.path specifier = l at hlookup
                generalize M'.lookup m.path specifier = l' at hlookup
                cases hlookup with
                | found hm =>
                    have hnext := ih (placeOf m name :: places) imported hm (hR hm)
                      ((hR hm).declaration imported)
                    exact ⟨congrArg Nat.succ hnext.length, hnext.found⟩
                | lost hno hno' =>
                    cases l with
                    | found x => exact absurd rfl (hno x)
                    | _ =>
                        cases l' with
                        | found x => exact absurd rfl (hno' x)
                        | _ => exact ⟨rfl, .none⟩

/-- Related types have related members if names lead to what is related. -/
theorem forall₂_members_ofType (hR : Translates R D A P)
    (hlocate : ∀ {m m'}, R m m' → ∀ places name,
      LocatedAlike R D (locate M M.reach places m name) (locate M' M'.reach places m' name))
    (levels : Nat) (places : List Place) (h : R m m') {type type' : Tree} (htype : A type type') :
    List.Forall₂ P (ofType M levels places m type).members
      (ofType M' levels places m' type').members := by
  induction levels using Nat.strong_induction_on generalizing places m m' type type' with
  | _ levels ih =>
      cases levels with
      | zero =>
          unfold ofType
          rw [members_nothing]
          exact .nil
      | succ level =>
          have hform := hR.form h htype
          rw [ofType_succ, ofType_succ]
          generalize peel type = t at hform
          generalize peel type' = t' at hform
          cases t with
          | none =>
              cases t' with
              | none =>
                  rw [Option.map_none, Option.getD_none, members_nothing, Option.map_none,
                    Option.getD_none, members_nothing]
                  exact .nil
              | some t' => cases hform
          | some t =>
              cases t' with
              | none => cases hform
              | some t' =>
                  obtain ⟨hform⟩ := hform
                  rw [Option.map_some, Option.getD_some, Option.map_some, Option.getD_some,
                    members_ofLevel, members_ofLevel]
                  refine hform.members (fun n => ?_)
                    (fun c hc => ⟨members_ofType_comment M _ _ _ hc,
                      members_ofType_comment M' _ _ _ hc⟩)
                    fun x x' hx => ih level (Nat.lt_succ_self level) places h hx
                  obtain ⟨hlength, hfound⟩ := hlocate h places n
                  rw [ofName_eq, ofName_eq, members_ofNameAt, members_ofNameAt, hlength]
                  generalize (locate M M.reach places m n).1.length = passed
                  generalize (locate M M.reach places m n).2 = f at hfound
                  generalize (locate M' M'.reach places m' n).2 = f' at hfound
                  cases hfound with
                  | none => exact .nil
                  | some hf =>
                      rw [Option.elim_some, Option.elim_some, hf.places]
                      refine List.rel_append ?_ (hR.own hf.source hf.declaration)
                      rw [← Tree.flatMap_written fun c hc => members_ofType_comment M _ _ _ hc,
                        ← Tree.flatMap_written fun c hc => members_ofType_comment M' _ _ _ hc]
                      exact List.rel_flatMap (hR.types hf.declaration) fun x x' hx =>
                        ih (level - passed - 1) (by omega) _ hf.source hx

end Expansion

/-- Related types have related members, if what may be asked of the modules agrees. -/
theorem Modules.Agree.forall₂_members {R : Source → Source → Prop} {D A : Tree → Tree → Prop}
    {P : PropMember → PropMember → Prop} {m m' : Source} {M M' : Modules}
    (hR : Expansion.Translates R D A P) (h : Modules.Agree R m m' M M') (hm : R m m') (levels : Nat)
    (places : List Expansion.Place) {type type' : Tree} (htype : A type type') :
    List.Forall₂ P (Expansion.ofType M levels places m type).members
      (Expansion.ofType M' levels places m' type').members := by
  cases h with
  | bounded hreach hl =>
      refine Expansion.forall₂_members_ofType hR (fun hab places name => ?_) levels places hm htype
      rw [hreach]
      exact Expansion.locate_alike hR.declares hl M.reach places name hab
  | @stores s t hs ht hl =>
      -- The bounds of both stores are enough, so the greater one serves both.
      let Read (a b : Source) : Prop := R a b ∧ a.ReadIn s ∧ b.ReadIn t
      have hread : Expansion.Translates Read D A P := hR.mono fun hab => hab.1
      have hlookup (p : Path) (specifier : String) :
          (s.modules.lookup p specifier).Alike Read (t.modules.lookup p specifier) := by
        rw [Store.modules_lookup, Store.modules_lookup]
        generalize hfound : s.lookup p specifier = l
        generalize hfound' : t.lookup p specifier = l'
        have halike := hl p specifier
        rw [hfound, hfound'] at halike
        cases halike with
        | found hab =>
            exact .found ⟨hab, Store.readIn_of_lookup hfound, Store.readIn_of_lookup hfound'⟩
        | lost hno hno' => exact .lost hno hno'
      refine Expansion.forall₂_members_ofType hread (fun {a b} hab places name => ?_) levels places
        ⟨hm, hs, ht⟩ htype
      have hle := Nat.le_max_left s.modules.reach t.modules.reach
      have hle' := Nat.le_max_right s.modules.reach t.modules.reach
      rw [← Expansion.locate_of_reach hab.2.1 places name hle,
        ← Expansion.locate_of_reach hab.2.2 places name hle']
      exact Expansion.locate_alike hread.declares hlookup _ places name hab

/-! ### The same declarations -/

/-- Whether two sources with one path declare and import the same. -/
structure Source.DeclaresAlike (m m' : Source) : Prop where
  /-- They have one path. -/
  path : m'.path = m.path
  /-- They declare the same types. -/
  declaration : ∀ name, declaration? m' name = declaration? m name
  /-- They import the same. -/
  imported : ∀ name, TypeMember.import? m' name = TypeMember.import? m name

namespace Source.DeclaresAlike

variable {m m' : Source}

theorem declaresBy (h : m.DeclaresAlike m') : m.DeclaresBy Eq m' := by
  refine ⟨h.path, fun name => ?_, h.imported⟩
  rw [h.declaration]
  cases declaration? m name with
  | none => exact .none
  | some d => exact .some rfl

/-- Members in braces have the same types in both. -/
theorem ofBody_eq (h : m.DeclaresAlike m') : ofBody m' = ofBody m := by
  have hcalled : isCalled m' = isCalled m := by
    funext t
    rw [isCalled, h.declaration, isCalled]
  funext body
  unfold ofBody ofTree? ofProperty
  rw [hcalled]

theorem formOf_eq (h : m.DeclaresAlike m') (t : Tree) :
    Expansion.formOf m' t = Expansion.formOf m t := by
  rw [Expansion.formOf, h.ofBody_eq, Expansion.formOf]

theorem ownOf_eq (h : m.DeclaresAlike m') (d : Tree) :
    Expansion.ownOf m' d = Expansion.ownOf m d := by
  rw [Expansion.ownOf, h.ofBody_eq, Expansion.ownOf]

end Source.DeclaresAlike

/-- In sources that declare alike, types are made of the same. -/
theorem Expansion.translates_eq {R : Source → Source → Prop}
    (hR : ∀ m m', R m m' → m.DeclaresAlike m') :
    Translates R Eq Eq Eq where
  declares h := (hR _ _ h).declaresBy
  form := by
    rintro m m' t _ h rfl
    have hsame (form : Form) : Form.Alike Eq Eq form form := by
      cases form with
      | own ms => exact .own (List.forall₂_same.mpr fun _ _ => rfl)
      | name n => exact .name n
      | wrapped wrap a =>
          refine .wrapped (fun ms ms' hms => ?_) (by cases a <;> constructor; rfl)
          rw [List.forall₂_eq_eq_eq] at hms
          rw [hms, List.forall₂_eq_eq_eq]
      | parts ts => exact .parts (List.forall₂_same.mpr fun _ _ => rfl)
    cases peel t with
    | none => exact .none
    | some u =>
        rw [Option.map_some, Option.map_some, (hR m m' h).formOf_eq]
        exact .some (hsame _)
  types := by
    rintro d _ rfl
    exact List.forall₂_same.mpr fun _ _ => rfl
  own := by
    rintro m m' d _ h rfl
    rw [(hR m m' h).ownOf_eq]
    exact List.forall₂_same.mpr fun _ _ => rfl

/-- A type has the same members in related sources, if what may be asked of their modules agrees. -/
theorem Modules.Agree.members_ofType {R : Source → Source → Prop} {m m' : Source} {M M' : Modules}
    (hR : ∀ m m', R m m' → m.DeclaresAlike m') (h : Modules.Agree R m m' M M') (hm : R m m')
    (levels : Nat) (places : List Expansion.Place) (type : Tree) :
    (Expansion.ofType M' levels places m' type).members =
      (Expansion.ofType M levels places m type).members := by
  have hmembers :=
    h.forall₂_members (Expansion.translates_eq hR) hm levels places (rfl : type = type)
  rw [List.forall₂_eq_eq_eq] at hmembers
  exact hmembers.symm

end Trellis
