import Trellis.Proofs.Contract.Plain

/-! # Chains of aliases

How far a type is followed through aliases. Each alias takes two of the levels that are written out and
each `Readonly` takes one, so the chains that are followed are shorter than the levels.

* `Expansion.next?` is one step of a chain, `Expansion.Leads` says that a type leads to another one in
  given steps, and `Expansion.cost` counts the levels that steps take.
* `Expansion.members_of_leads`: a type stands for what its chain leads to, with the levels that are left.
* `Expansion.followsChain`: if the levels are enough, a type has the members of the object type or
  interface to which it leads, and else it has none.
* `Expansion.aliases_hidden`: five aliases are too many. -/

namespace Trellis

open Syntax TypeMember

namespace Expansion

/-! ### Steps -/

/-- A step from a type to what it stands for. -/
inductive Step where
  /-- From the name of an alias to its value. -/
  | named (name : String)
  /-- From a read-only type to its argument. -/
  | readonly
  deriving DecidableEq, Repr

namespace Step

/-- How many levels a step takes: an alias one for its name, and one for its value. -/
def cost : Step → Nat
  | named _ => 2
  | readonly => 1

/-- The alias of a step. -/
def alias? : Step → Option String
  | named name => some name
  | readonly => none

end Step

/-- How many levels steps take. -/
def cost (steps : List Step) : Nat := (steps.map Step.cost).sum

/-- The aliases of steps, in order. -/
def aliasesOf (steps : List Step) : List String := steps.filterMap Step.alias?

/-- The value of an alias. -/
def aliased? (s : Source) (name : String) : Option Tree :=
  ((declaration? s name).filter (·.kind = .typeAliasDeclaration)).bind (·.part? .value)

/-- The argument of a read-only type. -/
def readonly? (t : Tree) : Option Tree :=
  ((t.part? .name).filter fun n => lastName n.text = "Readonly").bind fun _ => (argumentsOf t).head?

/-- The step that a type takes, inside of parentheses, with the type that comes next. -/
def next? (s : Source) (type : Tree) : Option (Step × Tree) := do
  let t ← peel type
  match t.kind with
  | .typeIdentifier => return (.named t.text, ← aliased? s t.text)
  | .genericType => return (.readonly, ← readonly? t)
  | _ => none

/-- Whether a type leads to another one in given steps. -/
inductive Leads (s : Source) : Tree → List Step → Tree → Prop
  /-- A type leads to itself. -/
  | here {type : Tree} : Leads s type [] type
  /-- It leads where the next type leads. -/
  | step {type type' final : Tree} {step : Step} {steps : List Step} :
      next? s type = some (step, type') → Leads s type' steps final →
      Leads s type (step :: steps) final

/-- Whether a type without brackets is an object type, or the name of an interface. -/
def isEnd (s : Source) (t : Tree) : Bool :=
  match t.kind with
  | .objectType => true
  | .typeIdentifier => (declaration? s t.text).any (·.kind = .interfaceDeclaration)
  | _ => false

/-- Whether chains end at a type: it is an object type or the name of an interface, perhaps in
parentheses. -/
def Ends (s : Source) (type : Tree) : Prop := (peel type).any (isEnd s) = true

instance (s : Source) (type : Tree) : Decidable (Ends s type) := inferInstanceAs (Decidable (_ = true))

variable {s : Source} {type type' t final : Tree} {step : Step} {steps : List Step} {name : String}

/-- The declaration of an alias is made of its value alone. -/
theorem exists_of_aliased? {v : Tree} (h : aliased? s name = some v) :
    ∃ d, declaration? s name = some d ∧ typesOf d = [v] ∧ ownOf s d = [] := by
  obtain ⟨d, hd, hv⟩ := Option.bind_eq_some_iff.mp h
  obtain ⟨hd, hkind⟩ := Option.filter_eq_some_iff.mp hd
  refine ⟨d, hd, ?_, ?_⟩
  · unfold typesOf
    rw [of_decide_eq_true hkind, hv]
    rfl
  · unfold ownOf
    rw [of_decide_eq_true hkind]

/-- The forms of a type that takes a step. -/
theorem next?_cases (h : next? s type = some (step, type')) : ∃ t, peel type = some t ∧
    ((t.kind = .typeIdentifier ∧ step = .named t.text ∧ aliased? s t.text = some type') ∨
      (t.kind = .genericType ∧ step = .readonly ∧ readonly? t = some type')) := by
  obtain ⟨t, hp, h⟩ := Option.bind_eq_some_iff.mp h
  refine ⟨t, hp, ?_⟩
  split at h
  · obtain ⟨v, hv, h⟩ := Option.bind_eq_some_iff.mp h
    cases h
    exact .inl ⟨‹_›, rfl, hv⟩
  · obtain ⟨a, ha, h⟩ := Option.bind_eq_some_iff.mp h
    cases h
    exact .inr ⟨‹_›, rfl, ha⟩
  · cases h

theorem Ends.next?_eq (h : Ends s type) : next? s type = none := by
  obtain ⟨t, hp, hend⟩ := (Option.any_eq_true _ _).mp h
  simp only [next?, hp, Option.bind_eq_bind, Option.bind_some]
  unfold isEnd at hend
  split at hend
  · next hkind => rw [hkind]
  · next hkind =>
    obtain ⟨d, hd, hinterface⟩ := (Option.any_eq_true _ _).mp hend
    rw [hkind]
    dsimp only
    rw [aliased?, hd, Option.filter_some, if_neg (by simp_all)]
    rfl
  · cases hend

/-- A type leads to one end, in one way. -/
theorem Leads.unique {steps' : List Step} {final' : Tree} (h : Leads s type steps final)
    (hfinal : Ends s final) (h' : Leads s type steps' final') (hfinal' : Ends s final') :
    steps = steps' ∧ final = final' := by
  induction h generalizing steps' with
  | here =>
      cases h' with
      | here => exact ⟨rfl, rfl⟩
      | step hnext _ => cases hfinal.next?_eq.symm.trans hnext
  | step hnext _ ih =>
      cases h' with
      | here => cases hfinal'.next?_eq.symm.trans hnext
      | step hnext' hrest' =>
          cases hnext.symm.trans hnext'
          obtain ⟨rfl, rfl⟩ := ih hfinal hrest'
          exact ⟨rfl, rfl⟩

/-- What comes after a step leads to the same end. -/
theorem Leads.of_mem (h : Leads s type steps final) (hstep : step ∈ steps) :
    ∃ before after x x', steps = before ++ step :: after ∧ next? s x = some (step, x') ∧
      Leads s x' after final := by
  induction h with
  | here => cases hstep
  | step hnext hrest ih =>
      rcases List.mem_cons.mp hstep with rfl | hmem
      · exact ⟨[], _, _, _, rfl, hnext, hrest⟩
      · obtain ⟨before, after, x, x', rfl, hx, hafter⟩ := ih hmem
        exact ⟨_ :: before, after, x, x', rfl, hx, hafter⟩

theorem mem_aliasesOf : name ∈ aliasesOf steps ↔ .named name ∈ steps := by
  unfold aliasesOf
  rw [List.mem_filterMap]
  constructor
  · rintro ⟨step, hmem, hstep⟩
    cases step with
    | named n => cases hstep; exact hmem
    | readonly => cases hstep
  · exact fun h => ⟨_, h, rfl⟩

/-- The aliases of a chain that comes to an end are different ones. -/
theorem Leads.nodup (h : Leads s type steps final) (hfinal : Ends s final) :
    (aliasesOf steps).Nodup := by
  induction h with
  | here => exact List.nodup_nil
  | @step type type' final step steps hnext hrest ih =>
      cases step with
      | readonly => exact ih hfinal
      | named n =>
          refine List.nodup_cons.mpr ⟨fun hmem => ?_, ih hfinal⟩
          -- The same alias once more leads to the same steps once more, which are fewer.
          obtain ⟨before, after, x, x', hsteps, hx, hafter⟩ := hrest.of_mem (mem_aliasesOf.mp hmem)
          have hvalue {y y' : Tree} (hy : next? s y = some (.named n, y')) :
              aliased? s n = some y' := by
            obtain ⟨t, -, ⟨-, hn, hv⟩ | ⟨-, hn, -⟩⟩ := next?_cases hy
            · cases hn
              exact hv
            · cases hn
          cases (hvalue hnext).symm.trans (hvalue hx)
          obtain ⟨rfl, -⟩ := hrest.unique hfinal hafter hfinal
          have hlength := congrArg List.length hsteps
          rw [List.length_append, List.length_cons] at hlength
          omega

/-! ### What a chain stands for -/

theorem formOf_of_readonly (hkind : t.kind = .genericType) {a : Tree} (ha : readonly? t = some a) :
    formOf s t = .wrapped id (some a) := by
  obtain ⟨n, hn, ha⟩ := Option.bind_eq_some_iff.mp ha
  obtain ⟨hn, hname⟩ := Option.filter_eq_some_iff.mp hn
  simp only [formOf, hkind, hn, Option.elim_some, formOfApplied]
  rw [of_decide_eq_true hname, ha]
  rfl

theorem formOf_of_name (hkind : t.kind = .typeIdentifier) : formOf s t = .name t.text := by
  unfold formOf
  rw [hkind]

variable {modules : Modules} {places : List Place}

/-- The names in progress after steps. -/
def placesAfter (s : Source) (steps : List Step) (places : List Place) : List Place :=
  ((aliasesOf steps).map (placeOf s)).reverse ++ places

theorem members_ofType_zero : (ofType modules 0 places s type).members = [] := by
  rw [ofType, members_nothing]

theorem members_ofType_succ {level : Nat} (hp : peel type = some t) :
    (ofType modules (level + 1) places s type).members =
      (formOf s t).members (fun n => (ofNameAt modules modules.reach level places s n).members)
        fun x => (ofType modules level places s x).members := by
  rw [ofType_succ, hp, Option.map_some, Option.getD_some, members_ofLevel]
  rfl

/-- A type stands for what comes after its step, with the levels that the step leaves. -/
theorem members_of_next? (level : Nat) (h : next? s type = some (step, type'))
    (hnew : ∀ n ∈ step.alias?, placeOf s n ∉ places) :
    (ofType modules level places s type).members =
      (ofType modules (level - step.cost) (placesAfter s [step] places) s type').members := by
  obtain ⟨t, hp, ⟨hkind, rfl, hv⟩ | ⟨hkind, rfl, ha⟩⟩ := next?_cases h
  · obtain ⟨d, hd, htypes, hown⟩ := exists_of_aliased? hv
    cases level with
    | zero => rw [Nat.zero_sub, members_ofType_zero, members_ofType_zero]
    | succ level =>
        rw [members_ofType_succ hp, formOf_of_name hkind, Form.members,
          members_ofNameAt_of_declaration (hnew _ rfl) hd, htypes, hown, List.flatMap_singleton,
          List.append_nil]
        rfl
  · cases level with
    | zero => rw [Nat.zero_sub, members_ofType_zero, members_ofType_zero]
    | succ level =>
        rw [members_ofType_succ hp, formOf_of_readonly hkind ha]
        rfl

theorem cost_cons : cost (step :: steps) = step.cost + cost steps := by
  rw [cost, List.map_cons, List.sum_cons, cost]

theorem placesAfter_cons (s : Source) (step : Step) (steps : List Step) (places : List Place) :
    placesAfter s (step :: steps) places = placesAfter s steps (placesAfter s [step] places) := by
  cases step with
  | named n =>
      have haliases : aliasesOf (.named n :: steps) = n :: aliasesOf steps := rfl
      rw [placesAfter, haliases, List.map_cons, List.reverse_cons, List.append_assoc]
      rfl
  | readonly => rfl

/-- A chain has no more aliases than half of the levels that it takes. -/
theorem two_mul_aliasesOf_le : 2 * (aliasesOf steps).length ≤ cost steps := by
  induction steps with
  | nil => exact Nat.zero_le _
  | cons step steps ih =>
      rw [cost_cons]
      cases step with
      | named n =>
          have hlength : (aliasesOf (.named n :: steps)).length = (aliasesOf steps).length + 1 := rfl
          have hcost : (Step.named n).cost = 2 := rfl
          omega
      | readonly => exact ih.trans (Nat.le_add_left _ _)

/-- A type stands for what its chain leads to, with the levels that the steps leave. -/
theorem members_of_leads (level : Nat) (h : Leads s type steps final)
    (hnodup : (aliasesOf steps).Nodup) (hnew : ∀ n ∈ aliasesOf steps, placeOf s n ∉ places) :
    (ofType modules level places s type).members =
      (ofType modules (level - cost steps) (placesAfter s steps places) s final).members := by
  induction h generalizing level places with
  | here => rfl
  | @step type type' final step steps hnext _ ih =>
      have haliases : aliasesOf (step :: steps) = step.alias?.toList ++ aliasesOf steps := by
        cases step <;> rfl
      rw [haliases] at hnodup hnew
      obtain ⟨-, hrest, hdisjoint⟩ := List.nodup_append.mp hnodup
      rw [members_of_next? level hnext fun n hn =>
        hnew n (List.mem_append_left _ (Option.mem_toList.mpr hn))]
      rw [cost_cons, ← Nat.sub_sub, placesAfter_cons s step steps places]
      refine ih (level - step.cost) hrest ?_
      -- An alias that comes later is not the one of this step.
      intro n hn hmem
      rcases List.mem_append.mp hmem with hmem | hmem
      · cases step with
        | readonly => cases hmem
        | named n' =>
            obtain ⟨-, rfl⟩ := Prod.mk.inj (List.mem_singleton.mp hmem)
            exact hdisjoint n (List.mem_singleton_self n) n hn rfl
      · exact hnew n (List.mem_append_right _ hn) hmem

/-- The plain members of a type are those of what comes after its step. -/
theorem isPlain_of_next? {lookup : Path → String → Lookup} {ms : List PropMember}
    (h : next? s type = some (step, type')) (hms : Resolver.IsPlain lookup s type ms) :
    Resolver.IsPlain lookup s type' ms := by
  obtain ⟨steps, hms⟩ := hms
  cases steps with
  | zero => cases hms
  | succ steps =>
      obtain ⟨t, hp, ⟨hkind, rfl, hv⟩ | ⟨hkind, rfl, ha⟩⟩ := next?_cases h
      · obtain ⟨d, hd, htypes, hown⟩ := exists_of_aliased? hv
        rw [Resolver.plain_succ_iff hp, formOf_of_name hkind] at hms
        cases hms with
        | name hms =>
            cases steps with
            | zero => cases hms
            | succ steps =>
                obtain ⟨parts, hparts, rfl⟩ := (Resolver.plainName_succ_iff hd).mp hms
                rw [htypes] at hparts
                cases hparts with
                | cons hpart hnil =>
                    cases hnil
                    rw [hown, List.flatten_singleton, List.append_nil]
                    exact ⟨steps, hpart⟩
      · rw [Resolver.plain_succ_iff hp, formOf_of_readonly hkind ha] at hms
        cases hms with
        | wrapped hms => exact ⟨steps, hms⟩

theorem isPlain_of_leads {lookup : Path → String → Lookup} {ms : List PropMember}
    (h : Leads s type steps final) (hms : Resolver.IsPlain lookup s type ms) :
    Resolver.IsPlain lookup s final ms := by
  induction h with
  | here => exact hms
  | step hnext _ ih => exact ih (isPlain_of_next? hnext hms)

/-! ### Chains of a type -/

/-- What the chain of a type of props tells of its members. -/
structure FollowsChain (modules : Modules) (s : Source) (type : Tree) (steps : List Step)
    (final : Tree) : Prop where
  /-- The aliases of the chain are different ones. -/
  distinct : (aliasesOf steps).Nodup
  /-- The type stands for the end of its chain, with the levels that the steps leave. -/
  members : (ofType modules levels [] s type).members =
    (ofType modules (levels - cost steps) (placesAfter s steps []) s final).members
  /-- If the steps take more levels than types may be deep, it has no members. -/
  hidden : Resolver.maxDepth < cost steps → (ofType modules levels [] s type).members = []
  /-- This is so for more aliases than types may be deep. -/
  many : Resolver.maxDepth < (aliasesOf steps).length → (ofType modules levels [] s type).members = []
  /-- Else it has the members of the object type at the end. -/
  object : cost steps ≤ Resolver.maxDepth → ∀ t ∈ peel final, t.kind = .objectType →
    (ofType modules levels [] s type).members = ofBody s t
  /-- Or those of the interface there, with those of its bases as far as the levels go. -/
  interface : cost steps ≤ Resolver.maxDepth → ∀ t ∈ peel final, t.kind = .typeIdentifier →
    ∀ d ∈ declaration? s t.text, d.kind = .interfaceDeclaration →
      (ofType modules levels [] s type).members =
        ((basesOf d).flatMap fun b => (ofType modules (levels - cost steps - 2)
          (placeOf s t.text :: placesAfter s steps []) s b).members) ++
            (d.part? .body).elim [] (ofBody s)
  /-- If no name is reached from itself and nothing is too deep, these are all members of the end. -/
  whole : Resolver.Acyclic modules.lookup s type →
    Resolver.Shallow modules.lookup levels s type → Resolver.Covers modules modules.reach levels →
      Resolver.IsPlain modules.lookup s final (ofType modules levels [] s type).members

/-- A type that leads to an object type or interface through aliases and read-only types has the members
of that, if the steps do not take too many levels. -/
theorem followsChain (modules : Modules) (h : Leads s type steps final) (hfinal : Ends s final) :
    FollowsChain modules s type steps final := by
  have hnodup := h.nodup hfinal
  have hmembers : (ofType modules levels [] s type).members =
      (ofType modules (levels - cost steps) (placesAfter s steps []) s final).members :=
    members_of_leads levels h hnodup nofun
  have hhidden (hcost : Resolver.maxDepth < cost steps) :
      (ofType modules levels [] s type).members = [] := by
    rw [hmembers, Nat.sub_eq_zero_of_le (show levels ≤ cost steps from hcost), members_ofType_zero]
  have hlevel (hcost : cost steps ≤ Resolver.maxDepth) :
      levels - cost steps = levels - cost steps - 1 + 1 := by
    have hlevels : levels = Resolver.maxDepth + 1 := rfl
    omega
  refine ⟨hnodup, hmembers, hhidden, fun hmany => hhidden ?_, fun hcost t ht hkind => ?_,
    fun hcost t ht hkind d hd hdkind => ?_, fun hacyclic hshallow hcovers => ?_⟩
  · exact hmany.trans_le ((Nat.le_mul_of_pos_left _ (by decide)).trans two_mul_aliasesOf_le)
  · rw [hmembers, hlevel hcost, members_ofType_succ ht]
    unfold formOf
    rw [hkind]
    rfl
  · -- The name of an interface is not one of the aliases.
    have hnew : placeOf s t.text ∉ placesAfter s steps [] := by
      intro hmem
      rw [placesAfter, List.append_nil, List.mem_reverse] at hmem
      obtain ⟨n, hn, hplace⟩ := List.mem_map.mp hmem
      obtain ⟨-, rfl⟩ := Prod.mk.inj hplace
      obtain ⟨_, _, _, _, -, hstep, -⟩ := h.of_mem (mem_aliasesOf.mp hn)
      obtain ⟨t', -, ⟨-, hname, hv⟩ | ⟨-, hname, -⟩⟩ := next?_cases hstep
      · rw [← Step.named.inj hname, aliased?, Option.mem_def.mp hd, Option.filter_some,
          if_neg (by simp [hdkind])] at hv
        cases hv
      · cases hname
    rw [hmembers, hlevel hcost, members_ofType_succ ht, formOf_of_name hkind, Form.members,
      members_ofNameAt_of_declaration hnew hd]
    unfold typesOf ownOf
    rw [hdkind]
    rfl
  · obtain ⟨ms, hms⟩ := Resolver.resolve_plain le_rfl hacyclic hshallow
    rw [hms.members hcovers]
    exact isPlain_of_leads h hms.plain

/-! ### Sources with chains -/

/-- The first steps of a type, with the type to which they lead. -/
def follow (s : Source) : (steps : Nat) → Tree → List Step × Tree
  | 0, type => ([], type)
  | steps + 1, type =>
    match next? s type with
    | some (step, type') => (step :: (follow s steps type').1, (follow s steps type').2)
    | none => ([], type)

theorem leads_follow (s : Source) (steps : Nat) (type : Tree) :
    Leads s type (follow s steps type).1 (follow s steps type).2 := by
  induction steps generalizing type with
  | zero => exact .here
  | succ steps ih =>
      unfold follow
      split
      · exact .step ‹_› (ih _)
      · exact .here

namespace Chained

/-- A store with one source. -/
def store (text : String) : Store := ⟨[(["C.tsx"], .file (.text text))], []⟩

/-- Whether what is behind a name of a source leads to an end in given steps, with given names of the
members before and after. -/
def isFollowed (steps : List Step) (before after : List String) (s : Source) (name : String) : Bool :=
  (Resolver.typeOf? s name).any fun type =>
    let (taken, final) := follow s steps.length type
    let names (type : Tree) : List String :=
      (ofType .none levels [] s type).members.map PropMember.name
    taken = steps && decide (Ends s final) && names type = before && names final = after

/-- Whether what is behind a name of a source that is read from a text leads to an end in given steps,
with given names of the members before and after. -/
def Stands (text name : String) (steps : List Step) (before after : List String) (s : Source)
    (type final : Tree) : Prop :=
  Source.loadComponent (store text) ⟨"/C.tsx"⟩ = .ok s ∧ Resolver.typeOf? s name = some type ∧
    Leads s type steps final ∧ Ends s final ∧
      (ofType .none levels [] s type).members.map PropMember.name = before ∧
        (ofType .none levels [] s final).members.map PropMember.name = after

theorem exists_stands {text name : String} {steps : List Step} {before after : List String}
    (h : ((Source.loadComponent (store text) ⟨"/C.tsx"⟩).toOption.any fun s =>
      isFollowed steps before after s name) = true) :
    ∃ s type final, Stands text name steps before after s type final := by
  obtain ⟨s, hs, h⟩ := exists_ok_of_any h
  obtain ⟨type, htype, h⟩ := (Option.any_eq_true _ _).mp h
  obtain ⟨h, hafter⟩ := Bool.and_eq_true_iff.mp h
  obtain ⟨h, hbefore⟩ := Bool.and_eq_true_iff.mp h
  obtain ⟨hsteps, hends⟩ := Bool.and_eq_true_iff.mp h
  have hleads := leads_follow s steps.length type
  rw [of_decide_eq_true hsteps] at hleads
  exact ⟨s, type, _, hs, htype, hleads, of_decide_eq_true hends, of_decide_eq_true hbefore,
    of_decide_eq_true hafter⟩

/-- Aliases that lead to an interface with a base, in any order. -/
def text : String :=
  "interface I extends B{a:1}type R=I;type P=(Q);type Q=Readonly<R>;interface B{b:1}"

/-- Five aliases in a row. -/
def longText : String := "type P=A;type A=B;type B=C;type C=D;type D=E;type E={e:1}"

end Chained

theorem followsChain_text : ∃ s type final,
    Chained.Stands Chained.text "P" [.named "Q", .readonly, .named "R"] ["b", "a"] ["b", "a"]
      s type final ∧
        FollowsChain .none s type [.named "Q", .readonly, .named "R"] final := by
  have hstands : ∃ s type final, Chained.Stands Chained.text "P" [.named "Q", .readonly, .named "R"]
      ["b", "a"] ["b", "a"] s type final :=
    Chained.exists_stands (by decide +kernel)
  obtain ⟨s, type, final, h⟩ := hstands
  have hleads := h.2.2.1
  have hends := h.2.2.2.1
  exact ⟨s, type, final, h, followsChain .none hleads hends⟩

/-- Five aliases take more levels than there are, so the members of the object type behind them are not
found. -/
theorem aliases_hidden : ∃ s type final, Chained.Stands Chained.longText "P"
    (["A", "B", "C", "D", "E"].map .named) [] ["e"] s type final :=
  Chained.exists_stands (by decide +kernel)

end Expansion

end Trellis
