import Trellis.Proofs.Contract.Counterparts
import Trellis.Proofs.Contract.Merging

/-! # Defaults that are given elsewhere

Values for props that are left out are given by a statement of the module. Where it stands does not
matter.

* `Tree.unlined` is a tree without its lines, which differ when a statement moves. What a statement
  says for checks at run time does not depend on them (`Mention.ofStatement_unlined`).
* `Source.MovesDefaults` says that two sources differ in the place of such a statement only.
* `Mention.merging_closed`: the props of a component are its mentions in closed form, so they are
  the same in both sources. -/

namespace Trellis

open Syntax

namespace Tree

/-! ### Lines -/

mutual

/-- The tree with no lines but the first one. -/
def unlined : Tree → Tree
  | .node k l x _ ts => .node k l x 0 (unlinedAll ts)

/-- The trees with no lines but the first one. -/
def unlinedAll : List Tree → List Tree
  | [] => []
  | t :: ts => unlined t :: unlinedAll ts

end

section unlined
variable (t : Tree)

theorem unlinedAll_eq (ts : List Tree) : unlinedAll ts = ts.map unlined := by
  induction ts with
  | nil => rfl
  | cons t ts ih => rw [unlinedAll, ih, List.map_cons]

theorem children_unlined : t.unlined.children = t.children.map unlined := by
  cases t
  exact unlinedAll_eq _

@[simp] theorem kind_unlined : t.unlined.kind = t.kind := by
  cases t
  rfl

@[simp] theorem text_unlined : t.unlined.text = t.text := by
  cases t
  rfl

theorem label_unlined : t.unlined.label = t.label := by
  cases t
  rfl

@[simp] theorem part?_unlined (l : Label) : t.unlined.part? l = (t.part? l).map unlined := by
  have hlabel : (fun c : Tree => decide (c.label = l)) ∘ unlined = fun c => decide (c.label = l) :=
    funext fun c => congrArg (fun x => decide (x = l)) (label_unlined c)
  rw [part?, children_unlined, List.find?_map, hlabel, part?]

@[simp] theorem parts_unlined : t.unlined.parts = t.parts.map unlined := by
  have hkind : (fun c : Tree => decide (c.kind ≠ .mark)) ∘ unlined =
      fun c => decide (c.kind ≠ .mark) :=
    funext fun c => congrArg (fun x => decide (x ≠ Kind.mark)) (kind_unlined c)
  rw [parts, children_unlined, List.filter_map, hkind, parts]

@[simp] theorem content?_unlined : t.unlined.content? = t.content?.map unlined := by
  have hkind : (fun c : Tree => decide (c.kind ≠ .comment)) ∘ unlined =
      fun c => decide (c.kind ≠ .comment) :=
    funext fun c => congrArg (fun x => decide (x ≠ Kind.comment)) (kind_unlined c)
  rw [content?, parts_unlined, List.find?_map, hkind, content?]

end unlined

end Tree

theorem Mention.objectEntry?_unlined (t : Tree) : objectEntry? t.unlined = objectEntry? t := by
  unfold objectEntry?
  simp only [Tree.kind_unlined, Tree.text_unlined, Tree.part?_unlined]
  cases t.part? .key <;> cases t.part? .value <;> simp

/-- What a statement says does not depend on where it stands. -/
theorem Mention.ofStatement_unlined (component : String) (t : Tree) :
    ofStatement component t.unlined = ofStatement component t := by
  have hentries (o : Tree) :
      (o.parts.map Tree.unlined).filterMap objectEntry? = o.parts.filterMap objectEntry? := by
    rw [List.filterMap_map]
    exact List.filterMap_congr fun c _ => objectEntry?_unlined c
  unfold ofStatement
  simp only [Tree.kind_unlined, Tree.content?_unlined]
  cases t.content? with
  | none => rfl
  | some a =>
      simp only [Option.map_some, Option.bind_eq_bind, Option.bind_some, Tree.part?_unlined,
        Tree.kind_unlined]
      cases a.part? .left with
      | none => rfl
      | some left =>
          cases a.part? .right with
          | none => rfl
          | some right =>
              simp only [Option.map_some, Option.bind_some, Tree.kind_unlined, Tree.part?_unlined]
              -- Whether it is read at all depends on the kinds only.
              generalize (t.kind = .expressionStatement && a.kind = .assignmentExpression &&
                left.kind = .memberExpression && right.kind = .object : Bool) = isRead
              cases isRead with
              | false => rfl
              | true =>
                  cases left.part? .object with
                  | none => rfl
                  | some o =>
                      cases left.part? .property with
                      | none => rfl
                      | some p =>
                          simp only [Option.map_some, Option.bind_some, Tree.text_unlined,
                            Tree.parts_unlined, hentries, if_true]

/-! ### Statements in another place -/

namespace Tree

/-- Whether a statement gives defaults to the props of a component. -/
def AssignsDefaults (t : Tree) : Prop :=
  t.kind = .expressionStatement ∧
    ((t.content?.bind (·.part? .left)).bind (·.part? .property)).any (·.text = "defaultProps") = true

instance : DecidablePred AssignsDefaults := fun _ => inferInstanceAs (Decidable (_ ∧ _))

/-- Whether two statements are the same, but perhaps for the lines on which their parts stand, if they
declare nothing. -/
def SaysAlike (t t' : Tree) : Prop :=
  t' = t ∨ t.kind = .expressionStatement ∧ t'.unlined = t.unlined

instance : DecidableRel SaysAlike := fun _ _ => inferInstanceAs (Decidable (_ ∨ _))

section alike
variable {t t' : Tree}

/-- An expression declares and imports nothing. -/
theorem declares_nothing (h : t.kind = .expressionStatement) (name : String) :
    (TypeMember.exported? t).filter (TypeMember.declares name) = none ∧
      TypeMember.importedBy? name t = none := by
  have hkind {k : Kind} (hk : k ≠ .expressionStatement) : t.kind ≠ k :=
    fun heq => hk (heq.symm.trans h)
  constructor
  · rw [TypeMember.exported?, if_neg (hkind (by decide)), Option.filter_some, TypeMember.declares,
      decide_eq_false (hkind (by decide)), decide_eq_false (hkind (by decide))]
    rfl
  · rw [TypeMember.importedBy?, if_neg (hkind (by decide))]

/-- A statement that gives defaults tells of no types. -/
theorem AssignsDefaults.declaration?_of_mem (h : t.AssignsDefaults) {component : String}
    {m : Mention} (hm : m ∈ Mention.ofStatement component t) : m.declaration? = none := by
  obtain ⟨p, hp, htext⟩ := (Option.any_eq_true _ _).mp h.2
  obtain ⟨left, hleft, hp⟩ := Option.bind_eq_some_iff.mp hp
  obtain ⟨a, ha, hleft⟩ := Option.bind_eq_some_iff.mp hleft
  have htext : p.text = "defaultProps" := of_decide_eq_true htext
  unfold Mention.ofStatement at hm
  simp only [ha, hleft, hp, Option.bind_eq_bind, Option.bind_some] at hm
  split at hm
  · next o p' object hfound =>
    obtain ⟨right, -, hfound⟩ := Option.bind_eq_some_iff.mp hfound
    split at hfound
    · obtain ⟨o', -, hfound⟩ := Option.bind_eq_some_iff.mp hfound
      cases hfound
      split at hm
      · exact absurd hm List.not_mem_nil
      · rw [htext, if_neg (by decide)] at hm
        obtain ⟨e, -, rfl⟩ := List.mem_map.mp hm
        rfl
    · cases hfound
  · exact absurd hm List.not_mem_nil

theorem SaysAlike.ofStatement_eq (h : t.SaysAlike t') (component : String) :
    Mention.ofStatement component t' = Mention.ofStatement component t := by
  rcases h with rfl | ⟨-, h⟩
  · rfl
  · rw [← Mention.ofStatement_unlined, h, Mention.ofStatement_unlined]

/-- What only declarations and imports tell is told alike. -/
theorem SaysAlike.eq_of_none {α : Type} {f : Tree → Option α} (h : t.SaysAlike t')
    (hf : ∀ t, t.kind = .expressionStatement → f t = none) : f t' = f t := by
  rcases h with rfl | ⟨hk, h⟩
  · rfl
  · rw [hf t hk, hf t' (by rw [← kind_unlined, h, kind_unlined, hk])]

end alike

end Tree

/-- Whether two sources differ only in the place of a statement that gives defaults, which stands
earlier in the second one. -/
structure Source.MovesDefaults (s s' : Source) : Prop where
  /-- They have one path. -/
  path : s'.path = s.path
  /-- Their statements say the same, but one of them says it earlier. -/
  statements : ∃ before between between' defaults defaults' after, Tree.AssignsDefaults defaults ∧
    defaults.SaysAlike defaults' ∧ List.Forall₂ Tree.SaysAlike between between' ∧
    s.statements = before ++ (between ++ ([defaults] ++ after)) ∧
    s'.statements = before ++ ([defaults'] ++ (between' ++ after))

namespace Source.MovesDefaults

variable {s s' : Source}

theorem findSome?_eq {α : Type} {f : Tree → Option α} (h : s.MovesDefaults s')
    (hf : ∀ t, t.kind = .expressionStatement → f t = none) :
    s'.statements.findSome? f = s.statements.findSome? f := by
  obtain ⟨before, between, between', defaults, defaults', after, hdefaults, hlike, hbetween, hs,
    hs'⟩ := h.statements
  have hnone : [defaults].findSome? f = none := by
    rw [List.findSome?_cons, hf defaults hdefaults.1, List.findSome?_nil]
  have hnone' : [defaults'].findSome? f = none := by
    rw [List.findSome?_cons, hlike.eq_of_none hf, hf defaults hdefaults.1, List.findSome?_nil]
  have hmiddle : between'.findSome? f = between.findSome? f := by
    have hfind (ts : List Tree) : ts.findSome? f = (ts.map f).findSome? id := by
      rw [List.findSome?_map]
      rfl
    have hmap : between'.map f = between.map f :=
      map_forall₂ hbetween fun _ _ ht => ht.eq_of_none hf
    rw [hfind, hmap, ← hfind]
  rw [hs, hs']
  simp only [List.findSome?_append, hnone, hnone', hmiddle, Option.none_or]

/-- The sources declare and import the same. -/
theorem declaresAlike (h : s.MovesDefaults s') : s.DeclaresAlike s' :=
  ⟨h.path, fun name => h.findSome?_eq fun _ ht => (Tree.declares_nothing ht name).1,
    fun name => h.findSome?_eq fun _ ht => (Tree.declares_nothing ht name).2⟩

/-- A type in both sources has the same members. -/
theorem members_expansion_eq (h : s.MovesDefaults s') (c : Candidate) (modules : Modules) :
    (c.expansion modules s').members = (c.expansion modules s).members := by
  have hagree : Modules.Agree Source.DeclaresAlike s s' modules modules := by
    refine .bounded rfl fun p specifier => ?_
    cases modules.lookup p specifier with
    | found m => exact .found ⟨rfl, fun _ => rfl, fun _ => rfl⟩
    | missing => exact .lost nofun nofun
    | refused _ _ => exact .lost nofun nofun
  rw [Candidate.members_expansion, Candidate.members_expansion]
  cases c.propsType? with
  | none => rfl
  | some t => exact hagree.members_ofType (fun _ _ => id) h.declaresAlike _ _ t

/-- The same is said about the props of a candidate, in another order. -/
theorem rearranged (h : s.MovesDefaults s') (c : Candidate) (modules : Modules) :
    Mention.Rearranged (c.mentions modules s') (c.mentions modules s) := by
  have hmembers := h.members_expansion_eq c modules
  obtain ⟨before, between, between', defaults, defaults', after, hdefaults, hlike, hbetween, hs,
    hs'⟩ := h.statements
  have hmiddle : between'.flatMap (Mention.ofStatement c.name) =
      between.flatMap (Mention.ofStatement c.name) := by
    rw [List.flatMap_def, List.flatMap_def]
    exact congrArg List.flatten (map_forall₂ hbetween fun _ _ ht => ht.ofStatement_eq c.name)
  have hmoved : [defaults'].flatMap (Mention.ofStatement c.name) =
      Mention.ofStatement c.name defaults := by
    rw [List.flatMap_singleton, hlike.ofStatement_eq]
  rw [Candidate.mentions, Candidate.mentions, hmembers, hs, hs']
  simp only [List.flatMap_append, ← List.append_assoc (_ ++ c.uses), hmiddle, hmoved,
    List.flatMap_singleton]
  exact .of_moved fun m hm => hdefaults.declaration?_of_mem hm

end Source.MovesDefaults

/-- Props are what is said about them in closed form. What is said without a type, such as that there
is a default, may be said earlier or later, and the statement with the defaults may stand anywhere. -/
theorem Mention.merging_closed : (∀ ms : List Mention, InClosedForm ms) ∧
    (∀ before moved between after : List Mention, (∀ m ∈ moved, m.declaration? = none) →
      (finished (before ++ (moved ++ (between ++ after)))).Perm
        (finished (before ++ (between ++ (moved ++ after))))) ∧
    ∀ (c : Candidate) (modules : Modules) (s s' : Source), s.MovesDefaults s' →
      c.props modules s = finished (c.mentions modules s) ∧
        (c.props modules s').Perm (c.props modules s) := by
  refine ⟨inClosedForm, fun before moved between after h => ?_, fun c modules s s' h => ⟨rfl, ?_⟩⟩
  · exact (Rearranged.of_moved h).perm_run.map _
  · exact (h.rearranged c modules).perm_run.map _

/-- A source of a component, and two statements about it. -/
def badge (first second : String) : Except LoadFault Source :=
  Source.ofText ⟨"A.jsx"⟩ ("let A=p=><b/>\n" ++ first ++ "\n" ++ second)

/-- A check of a prop. -/
def badgeCheck : String := "A.propTypes={a:string.isRequired}"

/-- A default of the same prop. -/
def badgeDefault : String := "A.defaultProps={a}"

theorem Mention.merging_closed_badge : ∃ s s', badge badgeCheck badgeDefault = .ok s ∧
    badge badgeDefault badgeCheck = .ok s' ∧ s.MovesDefaults s' ∧
    ∃ c ∈ Candidate.ofSource s, (c.props .none s').Perm (c.props .none s) ∧
      InClosedForm (c.mentions .none s') ∧
      c.props .none s = [⟨"a", "string", false, false, false⟩] := by
  have h : (badge badgeCheck badgeDefault).toOption.any (fun s =>
      (badge badgeDefault badgeCheck).toOption.any fun s' =>
        s'.path = s.path ∧ s.statements.length = 3 ∧ s'.statements.length = 3 ∧
        s'.statements[0]? = s.statements[0]? ∧
        (∃ y ∈ s.statements[1]?, ∃ y' ∈ s'.statements[2]?, y.SaysAlike y') ∧
        (∃ z ∈ s.statements[2]?, z.AssignsDefaults ∧ ∃ z' ∈ s'.statements[1]?, z.SaysAlike z') ∧
        ∃ c ∈ Candidate.ofSource s, c.props .none s = [⟨"a", "string", false, false, false⟩]) =
      true := by
    decide +kernel
  obtain ⟨s, hs, h⟩ := exists_ok_of_any h
  obtain ⟨s', hs', h⟩ := exists_ok_of_any h
  obtain ⟨hpath, hthree, hthree', hfirst, ⟨y, hy, y', hy', hchecks⟩,
    ⟨z, hz, hdefaults, z', hz', hlike⟩, c, hc, hprops⟩ := of_decide_eq_true h
  have hmoves : s.MovesDefaults s' := by
    obtain ⟨x, y, z, hold⟩ := List.length_eq_three.mp hthree
    obtain ⟨x', z', y', hnew⟩ := List.length_eq_three.mp hthree'
    rw [hold] at hy hz hfirst
    rw [hnew] at hy' hz' hfirst
    cases hy
    cases hz
    cases hy'
    cases hz'
    cases hfirst
    exact ⟨hpath, [x], [y], [y'], z, z', [], hdefaults, hlike, .cons hchecks .nil, hold, hnew⟩
  obtain ⟨_, hperm⟩ := merging_closed.2.2 c .none s s' hmoves
  exact ⟨s, s', hs, hs', hmoves, c, hc, hperm, merging_closed.1 _, hprops⟩

end Trellis
