import Trellis.Proofs.Contract.Imported

/-! # Resolution with names in progress

The members of a type, resolved call by call. A name is put into a set before what it stands for is
resolved, and taken out again afterwards; a name that is in the set already stands for nothing.

* `Expansion.Form` says what a type without brackets is made of.
* `Resolver.Run` is a piece of a resolution. It may change the set, and ends with a value unless its
  budget of nested names is exhausted. `Resolver.Call` are the calls that it makes, each with its depth
  and with the chain of names that are being resolved in it.
* `Resolver.members` and `Resolver.named` are the calls, `Resolver.resolve` is a resolution.
* `Resolver.Meets` says what holds of the calls and of the value of a run that finds given names in the
  set, and that it leaves the set as it was. `Meets.members` is the rule for types, one case for each
  form. -/

namespace Trellis

open Syntax TypeMember

/-! ### What a type is made of -/

namespace Expansion

/-- What a type without brackets is made of. -/
inductive Form where
  /-- Members in braces. -/
  | own (members : List PropMember)
  /-- A name. -/
  | name (name : String)
  /-- Something made of the members of an argument. -/
  | wrapped (wrap : List PropMember → List PropMember) (argument : Option Tree)
  /-- Several types at once, in order. -/
  | parts (types : List Tree)

/-- What a type is made of that is a name with arguments. -/
def formOfApplied (t name : Tree) : Form :=
  let argument := (argumentsOf t).head?
  let names := (argumentsOf t)[1]?.elim [] literalNames
  match lastName name.text with
  | "PropsWithChildren" => .wrapped (· ++ [children]) argument
  | "Partial" => .wrapped (List.map fun m => { m with optional := true }) argument
  | "Required" => .wrapped (List.map fun m => { m with optional := false }) argument
  | "Readonly" => .wrapped id argument
  | "Omit" => .wrapped (List.filter fun m => names.contains m.name = false) argument
  | "Pick" => .wrapped (List.filter fun m => names.contains m.name = true) argument
  | _ => if name.kind = .typeIdentifier then .name name.text else .own []

/-- What a type without brackets is made of. -/
def formOf (s : Source) (t : Tree) : Form :=
  match t.kind with
  | .objectType | .interfaceBody => .own (ofBody s t)
  | .typeIdentifier => .name t.text
  | .genericType => (t.part? .name).elim (.own []) (formOfApplied t)
  | .intersectionType => .parts t.parts
  | _ => .own []

/-- The members of a form, given those of names and types. -/
def Form.members (named : String → List PropMember) (inner : Tree → List PropMember) :
    Form → List PropMember
  | .own ms => ms
  | .name n => named n
  | .wrapped wrap a => wrap (a.elim [] inner)
  | .parts ts => ts.flatMap inner

/-- Whether all texts in what a form is made of have a property. -/
def Form.All (P : String → Prop) : Form → Prop
  | .own _ => True
  | .name n => P n
  | .wrapped _ a => ∀ t ∈ a, t.All P
  | .parts ts => ∀ t ∈ ts, t.All P

/-- The types that a declaration is made of: the bases of an interface, or what an alias stands for. -/
def typesOf (d : Tree) : List Tree :=
  match d.kind with
  | .interfaceDeclaration => basesOf d
  | _ => (d.part? .value).toList

/-- The members that stand in a declaration itself. -/
def ownOf (s : Source) (d : Tree) : List PropMember :=
  match d.kind with
  | .interfaceDeclaration => (d.part? .body).elim [] (ofBody s)
  | _ => []

theorem membersOfAll_eq (es : List Expansion) : membersOfAll es = es.flatMap members := by
  induction es with
  | nil =>
      rw [membersOfAll]
      rfl
  | cons e es ih => rw [membersOfAll, ih, List.flatMap_cons]

/-- The members of one level of a type are those of its form. -/
theorem members_ofLevel (s : Source) (named : String → Expansion) (inner : Tree → Expansion)
    (t : Tree) :
    (ofLevel s named inner t).members =
      (formOf s t).members (fun n => (named n).members) (fun x => (inner x).members) := by
  have hnothing : nothing.members = [] := by
    rw [nothing, members]
  have hargument : (((argumentsOf t).head?.map inner).getD nothing).members =
      (argumentsOf t).head?.elim [] fun x => (inner x).members := by
    cases (argumentsOf t).head? with
    | none => exact hnothing
    | some a => rfl
  unfold ofLevel formOf
  cases t.kind with
  | objectType => rw [members]; rfl
  | interfaceBody => rw [members]; rfl
  | typeIdentifier => rfl
  | intersectionType =>
      dsimp only [Form.members]
      rw [members, membersOfAll_eq, List.flatMap_map]
  | genericType =>
      cases t.part? .name with
      | none => exact hnothing
      | some name =>
          unfold formOfApplied
          dsimp only [Option.elim_some]
          generalize lastName name.text = last
          split
          · rw [members, hargument]
            rfl
          · rw [members, hargument]
            rfl
          · rw [members, hargument]
            rfl
          · exact hargument
          · rw [members, hargument]
            rfl
          · rw [members, hargument]
            rfl
          · -- No other name makes anything of its argument.
            by_cases hkind : name.kind = .typeIdentifier
            · simp only [if_pos hkind]
              rfl
            · simp only [if_neg hkind]
              exact hnothing
  | _ => exact hnothing

end Expansion

namespace Resolver

open Expansion (Form placeOf peel formOf typesOf ownOf)

/-! ### Pieces of a resolution -/

/-- A name in the module at a path. -/
structure Key where
  /-- The path. -/
  path : Path
  /-- The name. -/
  name : String
  deriving DecidableEq, Repr

/-- The place of a name. -/
def Key.place (k : Key) : Expansion.Place := (k.path.components, k.name)

/-- A call. -/
structure Call where
  /-- The depth with which it is made. -/
  depth : Nat
  /-- The names that are being resolved in nested calls, the innermost first. -/
  chain : List Key
  deriving DecidableEq, Repr

/-- What a piece of a resolution leaves. -/
structure Result (α : Type) where
  /-- The names that are in the set now. -/
  inProgress : List Expansion.Place
  /-- The calls that were made, in order. -/
  calls : List Call
  /-- The value, unless the budget was exhausted. -/
  value : Option α

/-- A piece of a resolution: what it leaves, by the names that it finds in the set. -/
def Run (α : Type) : Type := List Expansion.Place → Result α

namespace Run

variable {α β : Type}

/-- Only a value. -/
def done (a : α) : Run α := fun places => ⟨places, [], some a⟩

/-- One piece after another. -/
def andThen (r : Run α) (f : α → Run β) : Run β := fun places =>
  match (r places).value with
  | some a =>
    let next := f a (r places).inProgress
    ⟨next.inProgress, (r places).calls ++ next.calls, next.value⟩
  | none => ⟨(r places).inProgress, (r places).calls, none⟩

instance : Monad Run where
  pure := done
  bind := andThen

/-- The budget is exhausted. -/
def exhausted : Run α := fun places => ⟨places, [], none⟩

/-- A call. -/
def call (c : Call) : Run Unit := fun places => ⟨places, [c], some ()⟩

/-- What is done while a name is in the set: it is put in before and taken out afterwards. If it is there
already, nothing is done. -/
def guarded (place : Expansion.Place) (r : Run (List PropMember)) : Run (List PropMember) :=
  fun places =>
    if place ∈ places then ⟨places, [], some []⟩
    else
      let x := r (place :: places)
      ⟨x.inProgress.filter (· ≠ place), x.calls, x.value⟩

/-- The members of several types, in order. -/
def each (f : Tree → Run (List PropMember)) : List Tree → Run (List PropMember)
  | [] => pure []
  | t :: ts => do
    let ms ← f t
    let rest ← each f ts
    return ms ++ rest

end Run

/-! ### Calls -/

/-- The depth beyond which types stand for nothing. -/
def maxDepth : Nat := 8

/-- The members of a type in a module, given those of names. -/
def members (named : (depth : Nat) → List Key → Source → String → Run (List PropMember))
    (depth : Nat) (chain : List Key) (s : Source) (type : Tree) : Run (List PropMember) := do
  Run.call ⟨depth, chain⟩
  if maxDepth < depth then return []
  else
    match peel type with
    | none => return []
    | some t =>
      match formOf s t with
      | .own ms => return ms
      | .name name => named (depth + 1) chain s name
      | .wrapped wrap none => return wrap []
      | .wrapped wrap (some a) => return wrap (← members named (depth + 1) chain s a)
      | .parts ts => Run.each (members named (depth + 1) chain s) ts
termination_by maxDepth + 1 - depth

/-- The members of a declaration in a module, given those of types. -/
def declared (inner : Tree → Run (List PropMember)) (s : Source) (d : Tree) :
    Run (List PropMember) := do
  let ms ← Run.each inner (typesOf d)
  return ms ++ ownOf s d

/-- The members behind a name, with at most so many names nested in each other. -/
def named (lookup : Path → String → Lookup) :
    (budget depth : Nat) → List Key → Source → String → Run (List PropMember)
  | 0, _, _, _, _ => Run.exhausted
  | budget + 1, depth, chain, s, name =>
    let chain := ⟨s.path, name⟩ :: chain
    Run.guarded (placeOf s name) do
      Run.call ⟨depth, chain⟩
      match declaration? s name with
      | some d => declared (members (named lookup budget) (depth + 1) chain s) s d
      | none =>
        match import? s name with
        | some (specifier, imported) =>
          match lookup s.path specifier with
          | .found m => named lookup budget (depth + 1) chain m imported
          | _ => return []
        | none => return []

/-- The resolution of a type in a module, with at most so many names nested in each other. -/
def resolve (lookup : Path → String → Lookup) (budget : Nat) (s : Source) (type : Tree) :
    Result (List PropMember) :=
  members (named lookup budget) 0 [] s type []

/-! ### What a run meets -/

/-- What is said of the calls of a run. -/
structure Terms where
  /-- What is taken for granted of every call. -/
  assumes : Call → Prop
  /-- What is promised of every call. -/
  promises : Call → Prop
  /-- What is promised if the budget is exhausted. -/
  exhausts : Prop

/-- Whether what a run leaves that found given names in the set is as promised: the calls, and a value
with some property. -/
structure Met {α : Type} (T : Terms) (places : List Expansion.Place) (x : Result α)
    (P : α → Prop) : Prop where
  /-- The calls are as promised. -/
  promises : ∀ c ∈ x.calls, T.promises c
  /-- The budget is not exhausted, unless that was promised. -/
  exhausts : x.value = none → T.exhausts
  /-- The set is left as it was. -/
  inProgress : ∀ a, x.value = some a → x.inProgress = places
  /-- The value has the property. -/
  value : ∀ a, x.value = some a → P a

/-- Whether a run that finds given names in the set meets terms, if its calls are as assumed. -/
def Meets {α : Type} (T : Terms) (places : List Expansion.Place) (r : Run α) (P : α → Prop) : Prop :=
  (∀ c ∈ (r places).calls, T.assumes c) → Met T places (r places) P

namespace Meets

variable {T : Terms} {places : List Expansion.Place} {α β : Type} {P : α → Prop} {Q : β → Prop}

theorem pure {a : α} (h : P a) : Meets T places (Pure.pure a : Run α) P := by
  refine fun _ => ⟨nofun, nofun, fun _ _ => rfl, fun b hb => ?_⟩
  obtain rfl := Option.some.inj hb
  exact h

theorem exhausted (h : T.exhausts) : Meets T places (Run.exhausted : Run α) P :=
  fun _ => ⟨nofun, fun _ => h, nofun, nofun⟩

theorem call {c : Call} (h : T.assumes c → T.promises c) :
    Meets T places (Run.call c) fun _ => T.assumes c := by
  intro ha
  have hc := ha c (List.mem_singleton_self c)
  refine ⟨fun c' hc' => ?_, nofun, fun _ _ => rfl, fun _ _ => hc⟩
  obtain rfl := List.mem_singleton.mp hc'
  exact h hc

theorem mono {r : Run α} {P' : α → Prop} (h : Meets T places r P) (hP : ∀ a, P a → P' a) :
    Meets T places r P' := by
  intro ha
  have hr := h ha
  exact ⟨hr.promises, hr.exhausts, hr.inProgress, fun a hv => hP a (hr.value a hv)⟩

theorem bind {r : Run α} {f : α → Run β} (h : Meets T places r P)
    (hf : ∀ a, P a → Meets T places (f a) Q) : Meets T places (r >>= f) Q := by
  have hbind : (r >>= f) places = Run.andThen r f places := rfl
  unfold Run.andThen at hbind
  unfold Meets
  rw [hbind]
  cases hv : (r places).value with
  | none =>
      intro ha
      exact ⟨(h ha).promises, fun _ => (h ha).exhausts hv, nofun, nofun⟩
  | some a =>
      intro ha
      have hfirst := h fun c hc => ha c (List.mem_append_left _ hc)
      have hplaces := hfirst.inProgress a hv
      dsimp only at ha ⊢
      rw [hplaces] at ha ⊢
      have hnext := hf a (hfirst.value a hv) fun c hc => ha c (List.mem_append_right _ hc)
      refine ⟨fun c hc => ?_, hnext.exhausts, hnext.inProgress, hnext.value⟩
      rcases List.mem_append.mp hc with hc | hc
      · exact hfirst.promises c hc
      · exact hnext.promises c hc

/-- A name is put into the set and taken out again, if it was not there. -/
theorem guarded {place : Expansion.Place} {r : Run (List PropMember)} {P : List PropMember → Prop}
    (hold : place ∈ places → P []) (hnew : place ∉ places → Meets T (place :: places) r P) :
    Meets T places (Run.guarded place r) P := by
  unfold Meets Run.guarded
  split
  · rename_i hmem
    refine fun _ => ⟨nofun, nofun, fun _ _ => rfl, fun ms hms => ?_⟩
    obtain rfl := Option.some.inj hms
    exact hold hmem
  · rename_i hmem
    intro ha
    have hr := hnew hmem ha
    refine ⟨hr.promises, hr.exhausts, fun ms hms => ?_, hr.value⟩
    -- What was in the set before is not the name, so taking it out leaves that.
    dsimp only
    rw [hr.inProgress ms hms, List.filter_cons_of_neg (by simp), List.filter_eq_self]
    exact fun p hp => decide_eq_true (ne_of_mem_of_not_mem hp hmem)

/-- The members of several types are put together in order. -/
theorem each {f : Tree → Run (List PropMember)} {P : Tree → List PropMember → Prop}
    {ts : List Tree} (h : ∀ t ∈ ts, Meets T places (f t) (P t)) :
    Meets T places (Run.each f ts) fun ms => ∃ parts, List.Forall₂ P ts parts ∧ ms = parts.flatten := by
  induction ts with
  | nil => exact pure ⟨[], .nil, rfl⟩
  | cons t ts ih =>
      refine bind (h t List.mem_cons_self) fun ms hms => ?_
      refine bind (ih fun t ht => h t (List.mem_cons_of_mem _ ht)) fun rest hrest => ?_
      obtain ⟨parts, hparts, rfl⟩ := hrest
      exact pure ⟨ms :: parts, .cons hms hparts, rfl⟩

end Meets

/-! ### Types -/

theorem formOfApplied_cases (t name : Tree) :
    (∃ wrap, Expansion.formOfApplied t name = .wrapped wrap (Expansion.argumentsOf t).head?) ∨
      Expansion.formOfApplied t name = .name name.text ∨
      Expansion.formOfApplied t name = .own [] := by
  unfold Expansion.formOfApplied
  split
  · exact .inl ⟨_, rfl⟩
  · exact .inl ⟨_, rfl⟩
  · exact .inl ⟨_, rfl⟩
  · exact .inl ⟨_, rfl⟩
  · exact .inl ⟨_, rfl⟩
  · exact .inl ⟨_, rfl⟩
  · split
    · exact .inr (.inl rfl)
    · exact .inr (.inr rfl)

/-- What the members of a form are, given what those of names and types are. -/
inductive Gives (N : String → List PropMember → Prop) (Q : Tree → List PropMember → Prop) :
    Form → List PropMember → Prop
  | own {ms : List PropMember} : Gives N Q (.own ms) ms
  | name {n : String} {ms : List PropMember} : N n ms → Gives N Q (.name n) ms
  | bare {wrap : List PropMember → List PropMember} : Gives N Q (.wrapped wrap none) (wrap [])
  | wrapped {wrap : List PropMember → List PropMember} {a : Tree} {ms : List PropMember} :
      Q a ms → Gives N Q (.wrapped wrap (some a)) (wrap ms)
  | parts {ts : List Tree} {parts : List (List PropMember)} :
      List.Forall₂ Q ts parts → Gives N Q (.parts ts) parts.flatten

/-- Whether a property of the members of types, at a depth, follows from that of names and of the types
inside. -/
structure Fits (s : Source) (N : Nat → String → List PropMember → Prop)
    (Q : Nat → Tree → List PropMember → Prop) : Prop where
  /-- Without a type there are no members. -/
  none : ∀ {d type}, peel type = none → Q d type []
  /-- The members of a type are those of its form. -/
  form : ∀ {d type t ms}, d ≤ maxDepth → peel type = some t →
    Gives (N (d + 1)) (Q (d + 1)) (formOf s t) ms → Q d type ms

/-- Whether a name stands in a type. -/
inductive Mentions (s : Source) : Tree → String → Prop
  | name {type t : Tree} {n : String} :
      peel type = some t → formOf s t = .name n → Mentions s type n
  | wrapped {type t a : Tree} {n : String} {wrap : List PropMember → List PropMember} :
      peel type = some t → formOf s t = .wrapped wrap (some a) → Mentions s a n → Mentions s type n
  | part {type t a : Tree} {n : String} {ts : List Tree} :
      peel type = some t → formOf s t = .parts ts → a ∈ ts → Mentions s a n → Mentions s type n

section mentions
variable {P : String → Prop} {s : Source} {t : Tree}

mutual

/-- What is inside of brackets is a part of the type. -/
theorem all_of_peel (type : Tree) (h : type.All P) (hp : peel type = some t) : t.All P := by
  obtain ⟨k, l, text, line, ts⟩ := type
  rw [peel] at hp
  split at hp
  · rw [Tree.All] at h
    exact all_of_peelFirst ts h.2 hp
  · cases hp
    exact h

theorem all_of_peelFirst (ts : List Tree) (h : Tree.AllOf P ts)
    (hp : Expansion.peelFirst ts = some t) : t.All P := by
  cases ts with
  | nil => cases hp
  | cons x ts =>
      obtain ⟨k, l, text, line, children⟩ := x
      rw [Expansion.peelFirst] at hp
      rw [Tree.AllOf] at h
      split at hp
      · exact all_of_peelFirst ts h.2 hp
      · exact all_of_peel (.node k l text line children) h.1 hp

end

/-- The first argument of a type stands in it. -/
theorem all_of_argument (h : t.All P) {a : Tree} (ha : a ∈ (Expansion.argumentsOf t).head?) :
    a.All P := by
  have hmem := List.mem_of_mem_head? ha
  unfold Expansion.argumentsOf at hmem
  cases harguments : t.part? .typeArguments with
  | none =>
      rw [harguments] at hmem
      cases hmem
  | some arguments =>
      rw [harguments] at hmem
      exact (h.of_part? harguments).of_mem_parts (List.mem_filter.mp hmem).1

/-- What stands in the form of a type stands in the type. -/
theorem all_of_form (h : t.All P) : (formOf s t).All P := by
  unfold formOf
  split
  · trivial
  · trivial
  · exact h.text
  · cases hname : t.part? .name with
    | none => trivial
    | some name =>
        rw [Option.elim_some]
        rcases formOfApplied_cases t name with ⟨wrap, hf⟩ | hf | hf
        · rw [hf]
          exact fun a ha => all_of_argument h ha
        · rw [hf]
          exact (h.of_part? hname).text
        · rw [hf]
          trivial
  · exact fun a ha => h.of_mem_parts ha
  · trivial

/-- A name that stands in a type is one of its texts. -/
theorem Mentions.of_all {type : Tree} {n : String} (hm : Mentions s type n) (h : type.All P) : P n := by
  have hform {type t : Tree} (hp : peel type = some t) (h : type.All P) {form : Form}
      (hf : formOf s t = form) : form.All P :=
    hf ▸ all_of_form (all_of_peel _ h hp)
  induction hm with
  | name hp hf => exact hform hp h hf
  | wrapped hp hf _ ih => exact ih (hform hp h hf _ rfl)
  | part hp hf ha _ ih => exact ih (hform hp h hf _ ha)

end mentions

namespace Meets

variable {T : Terms} {places : List Expansion.Place} {s : Source} {chain : List Key}
  {names : Nat → List Key → Source → String → Run (List PropMember)}
  {N : Nat → String → List PropMember → Prop} {Q : Nat → Tree → List PropMember → Prop}

/-- The members of a type have a property that fits, if those of the names in it do. -/
theorem members (hfits : Fits s N Q)
    (hdeep : ∀ {d type}, maxDepth < d → T.assumes ⟨d, chain⟩ → Q d type [])
    (hcall : ∀ d, T.assumes ⟨d, chain⟩ → T.promises ⟨d, chain⟩) {depth : Nat} {type : Tree}
    (hnames : ∀ d n, depth < d → d ≤ maxDepth + 1 → Mentions s type n →
      Meets T places (names d chain s n) (N d n)) :
    Meets T places (members names depth chain s type) (Q depth type) := by
  induction hm : maxDepth + 1 - depth using Nat.strong_induction_on generalizing depth type with
  | _ m ih =>
      rw [Resolver.members]
      refine bind (call (hcall depth)) fun _ hassumed => ?_
      split
      · rename_i hlt
        exact pure (hdeep hlt hassumed)
      · rename_i hlt
        have hle : depth ≤ maxDepth := Nat.le_of_not_lt hlt
        have hlt : maxDepth + 1 - (depth + 1) < m := by omega
        cases hp : peel type with
        | none => exact pure (hfits.none hp)
        | some t =>
            dsimp only
            cases hf : formOf s t with
            | own ms => exact pure (hfits.form hle hp (hf ▸ .own))
            | name n =>
                refine mono (hnames (depth + 1) n (Nat.lt_succ_self depth)
                  (Nat.succ_le_succ hle) (.name hp hf)) fun ms hms => ?_
                exact hfits.form hle hp (hf ▸ .name hms)
            | wrapped wrap a =>
                cases a with
                | none => exact pure (hfits.form hle hp (hf ▸ .bare))
                | some a =>
                    refine bind (ih _ hlt (fun d n hd hd' hn =>
                      hnames d n (Nat.lt_of_succ_lt hd) hd' (.wrapped hp hf hn)) rfl)
                      fun ms hms => ?_
                    exact pure (hfits.form hle hp (hf ▸ .wrapped hms))
            | parts ts =>
                refine mono (each fun a ha => ih _ hlt (fun d n hd hd' hn =>
                  hnames d n (Nat.lt_of_succ_lt hd) hd' (.part hp hf ha hn)) rfl) fun ms hms => ?_
                obtain ⟨parts, hparts, rfl⟩ := hms
                exact hfits.form hle hp (hf ▸ .parts hparts)

/-- The members of a declaration are those of its types and its own. -/
theorem declared {f : Tree → Run (List PropMember)} {P : Tree → List PropMember → Prop} {d : Tree}
    (h : ∀ t ∈ typesOf d, Meets T places (f t) (P t)) :
    Meets T places (declared f s d) fun ms => ∃ parts, List.Forall₂ P (typesOf d) parts ∧
      ms = parts.flatten ++ ownOf s d := by
  refine bind (each h) fun ms hms => ?_
  obtain ⟨parts, hparts, rfl⟩ := hms
  exact pure ⟨parts, hparts, rfl⟩

/-- The members behind a name: there are none if the name is in the set already, and else they are those
of its declaration, or of the name that it is imported for. -/
theorem named {lookup : Path → String → Lookup} {budget depth : Nat} {name : String}
    {P : List PropMember → Prop} {Q : Tree → List PropMember → Prop}
    (hold : placeOf s name ∈ places → P [])
    (hcall : placeOf s name ∉ places → T.assumes ⟨depth, ⟨s.path, name⟩ :: chain⟩ →
      T.promises ⟨depth, ⟨s.path, name⟩ :: chain⟩)
    (hdeclared : placeOf s name ∉ places → T.assumes ⟨depth, ⟨s.path, name⟩ :: chain⟩ →
      ∀ d, declaration? s name = some d →
        (∀ t ∈ typesOf d, Meets T (placeOf s name :: places)
          (Resolver.members (Resolver.named lookup budget) (depth + 1) (⟨s.path, name⟩ :: chain) s t)
          (Q t)) ∧
        ∀ parts, List.Forall₂ Q (typesOf d) parts → P (parts.flatten ++ ownOf s d))
    (himport : placeOf s name ∉ places → T.assumes ⟨depth, ⟨s.path, name⟩ :: chain⟩ →
      declaration? s name = none → ∀ specifier imported m,
        TypeMember.import? s name = some (specifier, imported) → lookup s.path specifier = .found m →
          Meets T (placeOf s name :: places)
            (Resolver.named lookup budget (depth + 1) (⟨s.path, name⟩ :: chain) m imported) P)
    (hnothing : placeOf s name ∉ places → declaration? s name = none →
      (∀ specifier imported, import? s name = some (specifier, imported) →
        ∀ m, lookup s.path specifier ≠ .found m) → P []) :
    Meets T places (Resolver.named lookup (budget + 1) depth chain s name) P := by
  rw [Resolver.named]
  refine guarded hold fun hnew => bind (call (hcall hnew)) fun _ hassumed => ?_
  cases hd : declaration? s name with
  | some d =>
      obtain ⟨htypes, hP⟩ := hdeclared hnew hassumed d hd
      refine mono (declared htypes) fun ms hms => ?_
      obtain ⟨parts, hparts, rfl⟩ := hms
      exact hP parts hparts
  | none =>
      dsimp only
      cases hi : import? s name with
      | none => exact pure (hnothing hnew hd fun _ _ h => absurd (hi.symm.trans h) nofun)
      | some found =>
          obtain ⟨specifier, imported⟩ := found
          have hno (h : ∀ m, lookup s.path specifier ≠ .found m) : P [] := by
            refine hnothing hnew hd fun specifier' imported' hi' => ?_
            obtain ⟨rfl, _⟩ := Prod.mk.inj (Option.some.inj (hi.symm.trans hi'))
            exact h
          dsimp only
          cases hl : lookup s.path specifier with
          | found m => exact himport hnew hassumed hd specifier imported m hi hl
          | missing => exact pure (hno (hl ▸ nofun))
          | refused dialect text => exact pure (hno (hl ▸ nofun))

end Meets

end Resolver

end Trellis
