import Mathlib.Logic.Relation
import Trellis.Proofs.Contract.Nesting

/-! # Plain expansion

What the set of names in progress and the depth cost: nothing, where no declaration refers to itself.

* `Resolver.plain` writes out the members of a type. It keeps no names and counts no depth; a type that
  refers to itself has no members by it.
* `Resolver.Refers` says that a declaration refers to a name. `Resolver.Acyclic` says that no name
  behind a type is reached from itself.
* `Resolver.resolve_plain`: a resolution in which no call is too deep gives the plain members, in their
  order, also where a declaration is reached several times. -/

namespace Trellis

open Syntax TypeMember

namespace Resolver

open Expansion (placeOf peel formOf typesOf ownOf ofType)
open Relation (TransGen ReflTransGen)

/-! ### Plain members -/

mutual

/-- The members of a type in a module, written out wherever its names lead, in so many steps. -/
def plain (lookup : Path → String → Lookup) :
    (steps : Nat) → Source → Tree → Option (List PropMember)
  | 0, _, _ => none
  | steps + 1, s, type =>
    match peel type with
    | none => some []
    | some t =>
      match formOf s t with
      | .own ms => some ms
      | .name name => plainName lookup steps s name
      | .wrapped wrap none => some (wrap [])
      | .wrapped wrap (some a) => (plain lookup steps s a).map wrap
      | .parts ts => (ts.mapM (plain lookup steps s)).map List.flatten

/-- The members behind a name: those of its declaration, or of the name that it is imported for. -/
def plainName (lookup : Path → String → Lookup) :
    (steps : Nat) → Source → String → Option (List PropMember)
  | 0, _, _ => none
  | steps + 1, s, name =>
    match declaration? s name with
    | some d => ((typesOf d).mapM (plain lookup steps s)).map fun parts => parts.flatten ++ ownOf s d
    | none =>
      match TypeMember.import? s name with
      | some (specifier, imported) =>
        match lookup s.path specifier with
        | .found m => plainName lookup steps m imported
        | _ => some []
      | none => some []

end

/-- Whether given members are the plain members of a type. -/
def IsPlain (lookup : Path → String → Lookup) (s : Source) (type : Tree) (ms : List PropMember) :
    Prop :=
  ∃ steps, plain lookup steps s type = some ms

/-- Whether given members are the plain members behind a name. -/
def IsPlainName (lookup : Path → String → Lookup) (s : Source) (name : String)
    (ms : List PropMember) : Prop :=
  ∃ steps, plainName lookup steps s name = some ms

variable {lookup : Path → String → Lookup} {s m : Source} {name : String} {type t d : Tree}
  {steps : Nat} {ms : List PropMember}

theorem mapM_eq_some_iff {f : Tree → Option (List PropMember)} {ts : List Tree}
    {parts : List (List PropMember)} :
    ts.mapM f = some parts ↔ List.Forall₂ (fun t ms => f t = some ms) ts parts := by
  induction ts generalizing parts with
  | nil => simp [eq_comm]
  | cons t ts ih =>
      simp only [List.mapM_cons, Option.bind_eq_bind, Option.bind_eq_some_iff, ih,
        List.forall₂_cons_left_iff, Option.pure_def, Option.some.injEq]
      grind

/-- The plain members of a type are those of its form, found in one step less. -/
theorem plain_succ_iff (hp : peel type = some t) : plain lookup (steps + 1) s type = some ms ↔
    Gives (fun n ms => plainName lookup steps s n = some ms)
      (fun t ms => plain lookup steps s t = some ms) (formOf s t) ms := by
  rw [plain, hp]
  dsimp only
  cases formOf s t with
  | own ms' =>
      refine ⟨fun h => ?_, fun h => ?_⟩
      · cases h
        exact .own
      · cases h
        rfl
  | name n =>
      refine ⟨fun h => .name h, fun h => ?_⟩
      cases h with
      | name hn => exact hn
  | wrapped wrap a =>
      cases a with
      | none =>
          refine ⟨fun h => ?_, fun h => ?_⟩
          · cases h
            exact .bare
          · cases h
            rfl
      | some a =>
          refine ⟨fun h => ?_, fun h => ?_⟩
          · obtain ⟨ms', hms', rfl⟩ := Option.map_eq_some_iff.mp h
            exact .wrapped hms'
          · cases h with
            | wrapped ha =>
                dsimp only
                rw [ha]
                rfl
  | parts ts =>
      refine ⟨fun h => ?_, fun h => ?_⟩
      · obtain ⟨parts, hparts, rfl⟩ := Option.map_eq_some_iff.mp h
        exact .parts (mapM_eq_some_iff.mp hparts)
      · cases h with
        | parts hparts =>
            dsimp only
            rw [mapM_eq_some_iff.mpr hparts]
            rfl

theorem plain_of_peel (hp : peel type = none) : plain lookup (steps + 1) s type = some [] := by
  rw [plain, hp]

theorem plainName_succ_iff (hd : declaration? s name = some d) :
    plainName lookup (steps + 1) s name = some ms ↔
      ∃ parts, List.Forall₂ (fun t ms => plain lookup steps s t = some ms) (typesOf d) parts ∧
        parts.flatten ++ ownOf s d = ms := by
  rw [plainName, hd]
  dsimp only
  simp only [Option.map_eq_some_iff, mapM_eq_some_iff]

theorem plainName_of_import (hd : declaration? s name = none) {specifier imported : String}
    (hi : TypeMember.import? s name = some (specifier, imported))
    (hl : lookup s.path specifier = .found m) :
    plainName lookup (steps + 1) s name = plainName lookup steps m imported := by
  rw [plainName, hd, hi]
  dsimp only
  rw [hl]

theorem plainName_of_missing (hd : declaration? s name = none)
    (hno : ∀ specifier imported, TypeMember.import? s name = some (specifier, imported) →
      ∀ m, lookup s.path specifier ≠ .found m) :
    plainName lookup (steps + 1) s name = some [] := by
  rw [plainName, hd]
  cases hi : TypeMember.import? s name with
  | none => rfl
  | some found =>
      obtain ⟨specifier, imported⟩ := found
      have hfound := hno specifier imported hi
      dsimp only
      cases hl : lookup s.path specifier with
      | found m => exact absurd hl (hfound m)
      | missing => rfl
      | refused dialect text => rfl

/-! ### More steps -/

theorem Gives.mono {N N' : String → List PropMember → Prop} {Q Q' : Tree → List PropMember → Prop}
    {form : Expansion.Form} (h : Gives N Q form ms) (hN : ∀ n ms, N n ms → N' n ms)
    (hQ : ∀ t ms, Q t ms → Q' t ms) : Gives N' Q' form ms := by
  cases h with
  | own => exact .own
  | name hn => exact .name (hN _ _ hn)
  | bare => exact .bare
  | wrapped ha => exact .wrapped (hQ _ _ ha)
  | parts hparts => exact .parts (hparts.imp hQ)

/-- Members that were found are found with one step more. -/
theorem plain_succ (steps : Nat) :
    (∀ s type ms, plain lookup steps s type = some ms → plain lookup (steps + 1) s type = some ms) ∧
      ∀ s name ms, plainName lookup steps s name = some ms →
        plainName lookup (steps + 1) s name = some ms := by
  induction steps with
  | zero => exact ⟨nofun, nofun⟩
  | succ steps ih =>
      obtain ⟨htype, hname⟩ := ih
      refine ⟨fun s type ms h => ?_, fun s name ms h => ?_⟩
      · cases hp : peel type with
        | none =>
            rw [plain_of_peel hp] at h ⊢
            exact h
        | some t =>
            rw [plain_succ_iff hp] at h ⊢
            exact h.mono (hname s) (htype s)
      · cases hd : declaration? s name with
        | some d =>
            rw [plainName_succ_iff hd] at h ⊢
            obtain ⟨parts, hparts, hms⟩ := h
            exact ⟨parts, hparts.imp (htype s), hms⟩
        | none =>
            by_cases hfound : ∃ specifier imported m,
                TypeMember.import? s name = some (specifier, imported) ∧
                  lookup s.path specifier = .found m
            · obtain ⟨specifier, imported, m, hi, hl⟩ := hfound
              rw [plainName_of_import hd hi hl] at h ⊢
              exact hname m imported ms h
            · have hno : ∀ specifier imported,
                  TypeMember.import? s name = some (specifier, imported) →
                    ∀ m, lookup s.path specifier ≠ .found m :=
                fun specifier imported hi m hl => hfound ⟨specifier, imported, m, hi, hl⟩
              rw [plainName_of_missing hd hno] at h ⊢
              exact h

theorem plain_mono {steps' : Nat} (hle : steps ≤ steps') (h : plain lookup steps s type = some ms) :
    plain lookup steps' s type = some ms := by
  induction hle with
  | refl => exact h
  | step _ ih => exact (plain_succ _).1 s type ms ih

/-- A type has no other plain members. -/
theorem IsPlain.unique {ms' : List PropMember} (h : IsPlain lookup s type ms)
    (h' : IsPlain lookup s type ms') : ms = ms' := by
  obtain ⟨steps, h⟩ := h
  obtain ⟨steps', h'⟩ := h'
  have hmax := plain_mono (le_max_left steps steps') h
  have hmax' := plain_mono (le_max_right steps steps') h'
  exact Option.some.inj (hmax.symm.trans hmax')

/-- Several types that have plain members have them in as many steps as the longest takes. -/
theorem exists_steps {ts : List Tree} {parts : List (List PropMember)}
    (h : List.Forall₂ (IsPlain lookup s) ts parts) :
    ∃ steps, List.Forall₂ (fun t ms => plain lookup steps s t = some ms) ts parts := by
  induction h with
  | nil => exact ⟨0, .nil⟩
  | cons hfirst _ ih =>
      obtain ⟨steps, hfirst⟩ := hfirst
      obtain ⟨steps', hrest⟩ := ih
      refine ⟨max steps steps', .cons (plain_mono (le_max_left _ _) hfirst) ?_⟩
      exact hrest.imp fun t ms ht => plain_mono (le_max_right steps steps') ht

theorem fits_plain (lookup : Path → String → Lookup) (s : Source) :
    Fits s (fun _ n ms => IsPlainName lookup s n ms) fun _ t ms => IsPlain lookup s t ms where
  none hp := ⟨1, plain_of_peel hp⟩
  form {d type t ms} _ hp h := by
    suffices hsteps : ∃ steps, Gives (fun n ms => plainName lookup steps s n = some ms)
        (fun t ms => plain lookup steps s t = some ms) (formOf s t) ms by
      obtain ⟨steps, hsteps⟩ := hsteps
      exact ⟨steps + 1, (plain_succ_iff hp).mpr hsteps⟩
    generalize formOf s t = form at h ⊢
    cases h with
    | own => exact ⟨0, .own⟩
    | name hn => exact hn.imp fun _ => .name
    | bare => exact ⟨0, .bare⟩
    | wrapped ha => exact ha.imp fun _ => .wrapped
    | parts hparts => exact (exists_steps hparts).imp fun _ => .parts

/-! ### References -/

/-- Whether a name of a module leads to another one directly. -/
inductive Refers (lookup : Path → String → Lookup) : Source × String → Source × String → Prop
  /-- A declaration refers to the names in its types. -/
  | declared {s : Source} {name n : String} {d t : Tree} : declaration? s name = some d →
      t ∈ typesOf d → Mentions s t n → Refers lookup (s, name) (s, n)
  /-- An imported name refers to what it is imported for. -/
  | imported {s m : Source} {name specifier imported : String} : declaration? s name = none →
      TypeMember.import? s name = some (specifier, imported) →
      lookup s.path specifier = .found m → Refers lookup (s, name) (m, imported)

/-- The place of a name of a module. -/
def placeAt (k : Source × String) : Expansion.Place := placeOf k.1 k.2

/-- Whether a name of a module is one of those behind a type. -/
def Reached (lookup : Path → String → Lookup) (s : Source) (type : Tree) (k : Source × String) :
    Prop :=
  ∃ n, Mentions s type n ∧ ReflTransGen (Refers lookup) (s, n) k

/-- Whether no name behind a type is reached from itself. -/
def Acyclic (lookup : Path → String → Lookup) (s : Source) (type : Tree) : Prop :=
  ∀ k, Reached lookup s type k → ∀ k', TransGen (Refers lookup) k k' → placeAt k' ≠ placeAt k

theorem Reached.tail {k k' : Source × String} (h : Reached lookup s type k)
    (hr : Refers lookup k k') : Reached lookup s type k' := by
  obtain ⟨n, hn, hk⟩ := h
  exact ⟨n, hn, hk.tail hr⟩

/-- No name is reached from itself if names only refer to names of a lower rank. -/
theorem Acyclic.of_rank (rank : Expansion.Place → Nat)
    (h : ∀ k, Reached lookup s type k → ∀ k', Refers lookup k k' →
      rank (placeAt k') < rank (placeAt k)) : Acyclic lookup s type := by
  intro k hk k' hreach
  have hlower : Reached lookup s type k' ∧ rank (placeAt k') < rank (placeAt k) := by
    induction hreach with
    | single hr => exact ⟨hk.tail hr, h k hk _ hr⟩
    | tail _ hr ih =>
        obtain ⟨hreached, hlt⟩ := ih
        exact ⟨hreached.tail hr, (h _ hreached _ hr).trans hlt⟩
  intro heq
  rw [heq] at hlower
  exact lt_irrefl _ hlower.2

/-- Whether given places are of names behind a type that lead to a name. -/
def Ascends (lookup : Path → String → Lookup) (s : Source) (type : Tree)
    (places : List Expansion.Place) (k : Source × String) : Prop :=
  ∀ p ∈ places, ∃ k', Reached lookup s type k' ∧ TransGen (Refers lookup) k' k ∧ placeAt k' = p

namespace Ascends

variable {places : List Expansion.Place} {k k' : Source × String}

theorem cons (h : Ascends lookup s type places k) (hk : Reached lookup s type k)
    (hr : Refers lookup k k') : Ascends lookup s type (placeAt k :: places) k' := by
  intro p hp
  rcases List.mem_cons.mp hp with rfl | hp
  · exact ⟨k, hk, .single hr, rfl⟩
  · obtain ⟨k'', hk'', hreach, hplace⟩ := h p hp
    exact ⟨k'', hk'', hreach.tail hr, hplace⟩

theorem not_mem (h : Ascends lookup s type places k) (hacyclic : Acyclic lookup s type) :
    placeAt k ∉ places := by
  intro hmem
  obtain ⟨k', hk', hreach, hplace⟩ := h _ hmem
  exact hacyclic k' hk' k hreach hplace.symm

end Ascends

/-! ### Resolutions that are not too deep -/

/-- No call is deeper than types are resolved, and the budget is not exhausted. -/
def notDeep : Terms := ⟨fun c => c.depth ≤ maxDepth, fun _ => True, False⟩

/-- A name behind a type has its plain members, if no call is too deep. Each nested name is deeper than
the one around it, so the budget has to suffice for the depths that are left only. -/
theorem named_plain (hacyclic : Acyclic lookup s type) (budget : Nat) {depth : Nat}
    (hdepth : depth ≤ maxDepth + 1) (hbudget : maxDepth + 1 < budget + depth) (chain : List Key)
    {places : List Expansion.Place} (hk : Reached lookup s type (m, name))
    (hplaces : Ascends lookup s type places (m, name)) :
    Meets notDeep places (named lookup budget depth chain m name) (IsPlainName lookup m name) := by
  induction budget generalizing depth chain m name places with
  | zero => omega
  | succ budget ih =>
      -- A name that is in the set leads to this one, so it would be reached from itself.
      have hnew : placeAt (m, name) ∉ places := hplaces.not_mem hacyclic
      refine .named (Q := IsPlain lookup m) (fun hmem => absurd hmem hnew)
        (fun _ _ => trivial) ?_ ?_ fun _ hd hno => ⟨1, plainName_of_missing hd hno⟩
      · intro _ hle d hd
        refine ⟨fun t ht => ?_, fun parts hparts => ?_⟩
        · refine .members (fits_plain lookup m) (fun hd hle => absurd hle (Nat.not_le_of_lt hd))
            (fun _ _ => trivial) fun d' n hlt hle' hn => ?_
          have hr : Refers lookup (m, name) (m, n) := .declared hd ht hn
          exact ih hle' (by omega) _ (hk.tail hr) (hplaces.cons hk hr)
        · obtain ⟨steps, hsteps⟩ := exists_steps hparts
          exact ⟨steps + 1, (plainName_succ_iff hd).mpr ⟨parts, hsteps, rfl⟩⟩
      · intro _ hle hd specifier imported m' hi hl
        have hr : Refers lookup (m, name) (m', imported) := .imported hd hi hl
        -- The depth of an import is not looked at in the resolution, but it is that of a call.
        have hle' : depth ≤ maxDepth := hle
        refine (ih (by omega) (by omega) _ (hk.tail hr) (hplaces.cons hk hr)).mono fun ms hms => ?_
        obtain ⟨steps, hsteps⟩ := hms
        exact ⟨steps + 1, (plainName_of_import hd hi hl).trans hsteps⟩

/-- Whether no call of the resolution of a type is deeper than types are resolved. -/
def Shallow (lookup : Path → String → Lookup) (budget : Nat) (s : Source) (type : Tree) : Prop :=
  ∀ c ∈ (resolve lookup budget s type).calls, c.depth ≤ maxDepth

/-- What holds of the resolution of a type that has given members. -/
structure Lossless (modules : Modules) (budget : Nat) (s : Source) (type : Tree)
    (ms : List PropMember) : Prop where
  /-- They are the plain members. -/
  plain : IsPlain modules.lookup s type ms
  /-- The resolution ends with them. -/
  value : (resolve modules.lookup budget s type).value = some ms
  /-- No name is left in the set. -/
  inProgress : (resolve modules.lookup budget s type).inProgress = []
  /-- They are the members of the type written out, if enough imports may be followed. -/
  members : Covers modules modules.reach budget →
    (ofType modules Expansion.levels [] s type).members = ms

/-- If no name behind a type is reached from itself and no call is too deep, the resolution of the type
gives its plain members, in their order. -/
theorem resolve_plain {modules : Modules} {budget : Nat} (hbudget : Expansion.levels ≤ budget)
    (hacyclic : Acyclic modules.lookup s type) (hshallow : Shallow modules.lookup budget s type) :
    ∃ ms, Lossless modules budget s type ms := by
  have hmeets : Meets notDeep [] (members (named modules.lookup budget) 0 [] s type)
      (IsPlain modules.lookup s type) := by
    refine .members (fits_plain modules.lookup s) (fun hd hle => absurd hle (Nat.not_le_of_lt hd))
      (fun _ _ => trivial) fun d n hlt hle hn => ?_
    have hlevels : maxDepth + 1 ≤ budget := hbudget
    exact named_plain hacyclic budget hle (by omega) [] ⟨n, hn, .refl⟩ nofun
  have hmet := hmeets hshallow
  obtain ⟨ms, hms⟩ : ∃ ms, (resolve modules.lookup budget s type).value = some ms :=
    Option.ne_none_iff_exists'.mp hmet.exhausts
  refine ⟨ms, hmet.value ms hms, hms, hmet.inProgress ms hms, fun hcovers => ?_⟩
  exact (resolve_eq hcovers hms).2.symm

/-- A store has enough imports for every type, or finds no modules. -/
theorem covers_modules (st : Store) : Covers st.modules st.modules.reach Expansion.levels := by
  by_cases hfound : ∃ p specifier m, st.lookup p specifier = .found m
  · obtain ⟨p, specifier, m, hm⟩ := hfound
    obtain ⟨e, he, -⟩ := (Store.readIn_of_lookup hm).file
    have hentries : 0 < st.entries.length := List.length_pos_of_mem he
    have hcount : 256 ≤ Store.pathCount := by
      rw [Store.pathCount_eq]
      exact Nat.le_self_pow (by decide) 256
    have hsquare : 0 < (st.totalSize + st.entries.length) ^ 2 :=
      Nat.pow_pos (by omega)
    have hreach : 256 ≤ Store.pathCount * (st.totalSize + st.entries.length) ^ 2 :=
      hcount.trans (Nat.le_mul_of_pos_right _ hsquare)
    refine .inl (le_trans ?_ (Nat.le_succ_of_le (Nat.le_succ_of_le hreach)))
    decide
  · exact .inr fun p specifier m hm => hfound ⟨p, specifier, m, hm⟩

theorem covers_none (budget : Nat) : Covers .none Modules.none.reach budget :=
  .inr fun _ _ _ => nofun

/-! ### A declaration that is reached several times -/

/-- Whether every declaration of a module has a greater rank than the names in its types. -/
def Lowers (rank : Expansion.Place → Nat) (s : Source) : Prop :=
  ∀ statement ∈ s.statements, ∀ d ∈ exported? statement, ∀ n ∈ d.part? .name, ∀ t ∈ typesOf d,
    t.All fun x => rank (placeOf s x) < rank (placeOf s n.text)

theorem Lowers.lt {rank : Expansion.Place → Nat} (h : Lowers rank s)
    (hd : declaration? s name = some d) (ht : t ∈ typesOf d) {n : String} (hn : Mentions s t n) :
    rank (placeOf s n) < rank (placeOf s name) := by
  obtain ⟨statement, hmem, hd⟩ := List.exists_of_findSome?_eq_some hd
  obtain ⟨hd, hdeclares⟩ := Option.filter_eq_some_iff.mp hd
  obtain ⟨-, hname⟩ := Bool.and_eq_true_iff.mp hdeclares
  obtain ⟨x, hx, htext⟩ := (Option.any_eq_true _ _).mp hname
  rw [← of_decide_eq_true htext]
  exact hn.of_all (h statement hmem d hd x hx t ht)

instance (rank : Expansion.Place → Nat) (s : Source) : Decidable (Lowers rank s) :=
  inferInstanceAs (Decidable (∀ statement ∈ s.statements, ∀ d ∈ exported? statement,
    ∀ n ∈ d.part? .name, ∀ t ∈ typesOf d,
      t.All fun x => rank (placeOf s x) < rank (placeOf s n.text)))

instance (lookup : Path → String → Lookup) (budget : Nat) (s : Source) (type : Tree) :
    Decidable (Shallow lookup budget s type) :=
  inferInstanceAs (Decidable (∀ c ∈ (resolve lookup budget s type).calls, c.depth ≤ maxDepth))

namespace Diamond

/-- Two interfaces with one base in another module, the first of them named twice. -/
def store : Store :=
  ⟨[(["C.tsx"], .file (.text ("import{B}from'./b';interface D extends B{d:1}" ++
      "interface E extends B{e:1}type P=D&Partial<E>&(D)"))),
    (["b.ts"], .file (.text "export interface B{b:1}"))], []⟩

/-- The path of the interfaces. -/
def path : Path := ⟨"/C.tsx"⟩

/-- The type is above the interfaces, and these are above their base. -/
def rank (p : Expansion.Place) : Nat :=
  if p.1 = path.components then
    if p.2 = "P" then 3 else if p.2 = "D" || p.2 = "E" then 2 else 1
  else 0

/-- Whether a source is that of the interfaces, and another one that of their base. -/
def Layered (s m : Source) : Prop :=
  (s.path.components = path.components ∧ m.path.components ≠ path.components) ∧
    (s.specifiers = ["./b"] ∧ m.specifiers = []) ∧ Lowers rank s ∧ Lowers rank m

instance (s m : Source) : Decidable (Layered s m) := inferInstanceAs (Decidable (_ ∧ _))

/-- Whether a type of a source is resolved to the members of the base before those of an interface. -/
def IsJoined (s : Source) (type : Tree) : Prop :=
  Shallow store.lookup Expansion.levels s type ∧
    (resolve store.lookup Expansion.levels s type).value.map (List.map PropMember.name) =
      some ["b", "d", "b", "e", "b", "d"]

instance (s : Source) (type : Tree) : Decidable (IsJoined s type) :=
  inferInstanceAs (Decidable (_ ∧ _))

theorem readable : ∃ s m type, Source.loadComponent store path = .ok s ∧
    store.lookup s.path "./b" = .found m ∧ typeOf? s "P" = some type ∧ Layered s m ∧
      IsJoined s type := by
  have hread : ((Source.loadComponent store path).toOption.any fun s =>
      (match store.lookup s.path "./b" with
        | .found m => decide (Layered s m)
        | _ => false) && (typeOf? s "P").any fun type => decide (IsJoined s type)) = true := by
    decide +kernel
  obtain ⟨s, hs, h⟩ := exists_ok_of_any hread
  obtain ⟨hstand, htype⟩ := Bool.and_eq_true_iff.mp h
  obtain ⟨type, htype, hjoined⟩ := (Option.any_eq_true _ _).mp htype
  split at hstand
  · rename_i m hm
    exact ⟨s, m, type, hs, hm, htype, of_decide_eq_true hstand,
      of_decide_eq_true hjoined⟩
  · cases hstand

/-- The names behind a type of the source are of the two modules, and refer to names of lower rank. -/
theorem acyclic {s m : Source} {type : Tree} (hm : store.lookup s.path "./b" = .found m)
    (h : Layered s m) : Acyclic store.lookup s type := by
  obtain ⟨⟨hpath, hpath'⟩, ⟨hspecifiers, hspecifiers'⟩, hlowers, hlowers'⟩ := h
  have hroot (n : String) : 0 < rank (placeOf s n) := by
    unfold rank
    rw [if_pos (show (placeOf s n).1 = path.components from hpath)]
    split_ifs <;> decide
  have hbase (n : String) : rank (placeOf m n) = 0 := if_neg hpath'
  have himport {s' m' : Source} {name specifier imported : String} (hs' : s' = s ∨ s' = m)
      (hi : TypeMember.import? s' name = some (specifier, imported))
      (hl : store.lookup s'.path specifier = .found m') : s' = s ∧ m' = m := by
    have hmem := Source.mem_specifiers hi
    rcases hs' with rfl | rfl
    · rw [hspecifiers, List.mem_singleton] at hmem
      rw [hmem, hm] at hl
      exact ⟨rfl, (Lookup.found.inj hl).symm⟩
    · rw [hspecifiers'] at hmem
      cases hmem
  have hstep {k k' : Source × String} (hk : k.1 = s ∨ k.1 = m) (hr : Refers store.lookup k k') :
      (k'.1 = s ∨ k'.1 = m) ∧ rank (placeAt k') < rank (placeAt k) := by
    cases hr with
    | declared hd ht hn =>
        rcases hk with rfl | rfl
        · exact ⟨.inl rfl, hlowers.lt hd ht hn⟩
        · exact ⟨.inr rfl, hlowers'.lt hd ht hn⟩
    | imported _ hi hl =>
        obtain ⟨rfl, rfl⟩ := himport hk hi hl
        exact ⟨.inr rfl, (hbase _).trans_lt (hroot _)⟩
  have hsource {k : Source × String} (hk : Reached store.lookup s type k) :
      k.1 = s ∨ k.1 = m := by
    obtain ⟨n, -, hreach⟩ := hk
    induction hreach with
    | refl => exact .inl rfl
    | tail _ hr ih => exact (hstep ih hr).1
  exact .of_rank rank fun k hk k' hr => (hstep (hsource hk) hr).2

end Diamond

theorem resolve_plain_diamond : ∃ s type ms,
    Source.loadComponent Diamond.store Diamond.path = .ok s ∧
      Acyclic Diamond.store.modules.lookup s type ∧
        Shallow Diamond.store.modules.lookup Expansion.levels s type ∧
          Lossless Diamond.store.modules Expansion.levels s type ms ∧
            (ofType Diamond.store.modules Expansion.levels [] s type).members = ms ∧
              ms.map PropMember.name = ["b", "d", "b", "e", "b", "d"] := by
  obtain ⟨s, m, type, hs, hm, -, hlayered, hshallow, hnames⟩ := Diamond.readable
  have hacyclic : Acyclic Diamond.store.modules.lookup s type := Diamond.acyclic hm hlayered
  obtain ⟨ms, hms⟩ := resolve_plain le_rfl hacyclic hshallow
  have hvalue := hms.value
  rw [Store.modules_lookup] at hvalue
  rw [hvalue] at hnames
  exact ⟨s, type, ms, hs, hacyclic, hshallow, hms, hms.members (covers_modules _),
    Option.some.inj hnames⟩

end Resolver

end Trellis
