import Mathlib.Data.List.Forall2
import Mathlib.Logic.Relation
import Trellis.Proofs.Contract.Declared
import Trellis.Proofs.Contract.RenamedElements

/-! # The name of the parameter

Sources that differ in the names of the variables in which functions take the props.

* `Tree.RenamesParameter` says that two functions take their props in a variable each, and differ in the
  name of it. `Source.Renames` says that two sources differ in such functions only.
* What else is read of the sources is the same: what they declare and import
  (`Source.Renames.declaresAlike`), what they export (`Source.Renames.exports_eq`), and what they say for
  checks at run time (`Source.Renames.checks_eq`). `Source.Renames.candidates`: their candidates are the
  same, or differ in the variables. -/

namespace Trellis

open Syntax
open Relation (ReflGen)

/-! ### Functions and what holds them -/

namespace Tree

/-- The first parameter of a function. -/
def parameterOf? (f : Tree) : Option Tree :=
  match f.part? .parameter with
  | some p => some p
  | none => (f.part? .parameters).bind content?

/-- Whether a function takes its first argument in a variable with a name. -/
def Binds (name : String) (f : Tree) : Prop :=
  ((parameterOf? f).bind Candidate.patternOf?).any (Mention.isVariable name) = true

instance (name : String) (f : Tree) : Decidable (Binds name f) := inferInstanceAs (Decidable (_ = true))

/-- Whether two bodies differ in the name of a variable, `p` and `q`, and in nothing but that. -/
@[mk_iff]
structure RenamesBody (p q : String) (b b' : Tree) : Prop where
  /-- They are the same once the variable is called `q` in both. -/
  eq : b'.rename q q = b.rename p q
  /-- The new name is not used otherwise. -/
  fresh : b.uses q = false
  /-- What is read of them as names and literals does not depend on the variable. -/
  apart : b.Apart p ∧ b'.Apart q

instance (p q : String) : DecidableRel (RenamesBody p q) :=
  fun b b' => decidable_of_iff' _ (renamesBody_iff p q b b')

/-- Whether two functions take their first arguments in the variables `p` and `q`, and differ in that
and in what is not read of them. -/
@[mk_iff]
structure RenamesParameter (p q : String) (f f' : Tree) : Prop where
  /-- They are functions of one kind. -/
  kind : f'.kind = f.kind
  /-- They are one part of what holds them. -/
  label : f'.label = f.label
  /-- They start on one line. -/
  line : f'.line = f.line
  /-- They have one name. -/
  name : f'.part? .name = f.part? .name
  /-- They take their first arguments in the variables. -/
  binds : f.Binds p ∧ f'.Binds q
  /-- The variables have one type. -/
  type : (parameterOf? f').bind Candidate.ascriptionOf? = (parameterOf? f).bind Candidate.ascriptionOf?
  /-- The bodies differ in the name of the variable. -/
  body : Option.Rel (RenamesBody p q) (f.part? .body) (f'.part? .body)

instance {α : Type} {R : α → α → Prop} [DecidableRel R] : DecidableRel (Option.Rel R)
  | none, none => .isTrue .none
  | none, some _ => .isFalse nofun
  | some _, none => .isFalse nofun
  | some a, some b => decidable_of_iff (R a b) ⟨.some, fun (.some h) => h⟩

instance (p q : String) : DecidableRel (RenamesParameter p q) :=
  fun f f' => decidable_of_iff' _ (renamesParameter_iff p q f f')

/-- Whether two trees are the same, but for their texts and for children that are related. -/
@[mk_iff]
structure Holds (R : Tree → Tree → Prop) (t t' : Tree) : Prop where
  /-- They are of one kind. -/
  kind : t'.kind = t.kind
  /-- They are one part of what holds them. -/
  label : t'.label = t.label
  /-- They start on one line. -/
  line : t'.line = t.line
  /-- Each child is the same, or related. -/
  children : List.Forall₂ (ReflGen R) t.children t'.children

instance {R : Tree → Tree → Prop} [DecidableRel R] : DecidableRel (ReflGen R) :=
  fun t t' => decidable_of_iff' _ (Relation.reflGen_iff R t t')

instance {R : Tree → Tree → Prop} [DecidableRel R] : DecidableRel (Holds R) :=
  fun t t' => decidable_of_iff' _ (holds_iff R t t')

/-- Whether two declarators differ in the variables in which their functions take the props. -/
def RenamesDeclarator (p q : String) (t t' : Tree) : Prop :=
  t.kind = .variableDeclarator ∧
    Holds (fun f f' => f.label = .value ∧ Candidate.isFunction f ∧ RenamesParameter p q f f') t t'

instance (p q : String) : DecidableRel (RenamesDeclarator p q) :=
  fun _ _ => inferInstanceAs (Decidable (_ ∧ _))

/-- Whether two declarations differ in the variables in which functions take the props. -/
def RenamesDeclaration (p q : String) (t t' : Tree) : Prop :=
  (t.kind = .functionDeclaration ∧ RenamesParameter p q t t') ∨
    (Candidate.isVariables t = true ∧ Holds (RenamesDeclarator p q) t t')

instance (p q : String) : DecidableRel (RenamesDeclaration p q) :=
  fun _ _ => inferInstanceAs (Decidable (_ ∨ _))

/-- Whether two statements differ in the variables in which functions take the props. -/
def RenamesStatement (p q : String) (t t' : Tree) : Prop :=
  RenamesDeclaration p q t t' ∨
    (t.kind = .exportStatement ∧ Holds (RenamesDeclaration p q) t t')

instance (p q : String) : DecidableRel (RenamesStatement p q) :=
  fun _ _ => inferInstanceAs (Decidable (_ ∨ _))

end Tree

/-- Whether two sources with one path differ in the variables in which functions take the props. -/
@[mk_iff]
structure Source.Renames (p q : String) (s s' : Source) : Prop where
  /-- They have one path. -/
  path : s'.path = s.path
  /-- Each statement is the same, or differs in these variables. -/
  statements : List.Forall₂ (ReflGen (Tree.RenamesStatement p q)) s.statements s'.statements

instance (p q : String) : DecidableRel (Source.Renames p q) :=
  fun s s' => decidable_of_iff' _ (Source.renames_iff p q s s')

/-- Whether two candidates are of functions that differ in the variables in which they take the props. -/
structure Candidate.Renames (p q : String) (c c' : Candidate) : Prop where
  /-- They have one name. -/
  name : c'.name = c.name
  /-- They have one ascription. -/
  ascription : c'.ascription = c.ascription
  /-- They are declared on one line. -/
  line : c'.line = c.line
  /-- The functions differ in the variables. -/
  function : Tree.RenamesParameter p q c.function c'.function

/-! ### Parts of related trees -/

theorem find?_forall₂ {α β : Type} {R : α → β → Prop} {f : α → Bool} {g : β → Bool} {as : List α}
    {bs : List β} (h : List.Forall₂ R as bs) (hfg : ∀ a b, R a b → g b = f a) :
    Option.Rel R (as.find? f) (bs.find? g) := by
  induction h with
  | nil => exact .none
  | @cons a b as bs hab _ ih =>
      rw [List.find?_cons, List.find?_cons, hfg a b hab]
      cases f a with
      | true => exact .some hab
      | false => exact ih

theorem map_forall₂ {α β γ : Type} {R : α → β → Prop} {f : α → γ} {g : β → γ} {as : List α}
    {bs : List β} (h : List.Forall₂ R as bs) (hfg : ∀ a b, R a b → g b = f a) :
    bs.map g = as.map f := by
  induction h with
  | nil => rfl
  | @cons a b as bs hab _ ih => rw [List.map_cons, List.map_cons, hfg a b hab, ih]

theorem filterMap_forall₂ {α β γ : Type} {R : α → β → Prop} {f : α → Option γ} {g : β → Option γ}
    {as : List α} {bs : List β} (h : List.Forall₂ R as bs) (hfg : ∀ a b, R a b → g b = f a) :
    bs.filterMap g = as.filterMap f := by
  induction h with
  | nil => rfl
  | @cons a b as bs hab _ ih => rw [List.filterMap_cons, List.filterMap_cons, hfg a b hab, ih]

namespace Tree

section holds
variable {R : Tree → Tree → Prop} {t t' : Tree} {l : Label}

theorem Holds.part? (h : Holds R t t') (hR : ∀ c c', R c c' → c'.label = c.label) (l : Label) :
    Option.Rel (ReflGen R) (t.part? l) (t'.part? l) := by
  refine find?_forall₂ h.children fun c c' hc => ?_
  cases hc with
  | refl => rfl
  | single hc => rw [hR c c' hc]

/-- A part that is none of those related is the same. -/
theorem Holds.part?_eq (h : Holds R t t') (hR : ∀ c c', R c c' → c'.label = c.label)
    (hl : ∀ c c', R c c' → c.label ≠ l) : t'.part? l = t.part? l := by
  have hrel := h.part? hR l
  generalize hc : t.part? l = c at hrel
  generalize t'.part? l = c' at hrel
  cases hrel with
  | none => rfl
  | some hsame =>
      cases hsame with
      | refl => rfl
      | single hR' => exact absurd (mem_children_of_part? hc).2 (hl _ _ hR')

theorem Holds.parts (h : Holds R t t') (hR : ∀ c c', R c c' → c'.kind = c.kind) :
    List.Forall₂ (ReflGen R) t.parts t'.parts := by
  refine List.rel_filter (fun c c' hc => ?_) h.children
  cases hc with
  | refl => exact Iff.rfl
  | single hc =>
      dsimp only
      rw [hR c c' hc]

/-- A mark is none of the children that are related. -/
theorem Holds.hasMark_eq (h : Holds R t t') (hR : ∀ c c', R c c' → c'.kind = c.kind ∧ c.kind ≠ .mark)
    (mark : String) : t'.hasMark mark = t.hasMark mark := by
  have hmarks := map_forall₂ (f := fun c => c.kind = .mark && c.text = mark) h.children
    (g := fun c => c.kind = .mark && c.text = mark) fun c c' hc => by
      cases hc with
      | refl => rfl
      | single hc =>
          obtain ⟨hkind, hmark⟩ := hR c c' hc
          rw [hkind, decide_eq_false hmark, Bool.false_and, Bool.false_and]
  have hany (ts : List Tree) : ts.any (fun c => c.kind = .mark && c.text = mark) =
      (ts.map fun c => c.kind = .mark && c.text = mark).any id := by
    rw [List.any_map]
    rfl
  rw [hasMark, hasMark, hany, hany, hmarks]

/-- The parts of a kind of which none are related are the same. -/
theorem Holds.filter_kind_eq {k : Kind} (h : Holds R t t')
    (hR : ∀ c c', R c c' → c'.kind = c.kind ∧ c.kind ≠ k) :
    t'.parts.filter (·.kind = k) = t.parts.filter (·.kind = k) := by
  have hparts := h.parts fun c c' hc => (hR c c' hc).1
  generalize t.parts = ts at hparts
  generalize t'.parts = ts' at hparts
  induction hparts with
  | nil => rfl
  | @cons c c' ts ts' hc _ ih =>
      rw [List.filter_cons, List.filter_cons, ih]
      cases hc with
      | refl => rfl
      | single hc =>
          obtain ⟨heq, hne⟩ := hR c c' hc
          rw [heq, decide_eq_false hne]
          rfl

/-- A declaration of variables is none of a function. -/
theorem Holds.isVariables (h : Holds R t t') (hk : Candidate.isVariables t = true) :
    t.kind ≠ .functionDeclaration ∧ Candidate.isVariables t' = true := by
  refine ⟨fun hf => ?_, ?_⟩
  · rw [Candidate.isVariables, hf] at hk
    cases hk
  · rw [Candidate.isVariables, h.kind]
    exact hk

end holds

section declarations
variable {p q : String} {t t' d d' : Tree}

theorem RenamesDeclarator.kind_eq (h : RenamesDeclarator p q t t') :
    t'.kind = t.kind ∧ t.kind = .variableDeclarator :=
  ⟨h.2.kind, h.1⟩

theorem RenamesDeclaration.kind_eq (h : RenamesDeclaration p q t t') :
    t'.kind = t.kind ∧ (t.kind = .functionDeclaration ∨ t.kind = .lexicalDeclaration ∨
      t.kind = .variableDeclaration) := by
  rcases h with ⟨hk, h⟩ | ⟨hk, h⟩
  · exact ⟨h.kind, .inl hk⟩
  · simp only [Candidate.isVariables, Bool.or_eq_true, decide_eq_true_eq] at hk
    exact ⟨h.kind, .inr hk⟩

/-- A declaration is of no other kind. -/
theorem RenamesDeclaration.kind_ne (h : RenamesDeclaration p q t t') {k : Kind}
    (hk : k ≠ .functionDeclaration ∧ k ≠ .lexicalDeclaration ∧ k ≠ .variableDeclaration) :
    t'.kind = t.kind ∧ t.kind ≠ k := by
  obtain ⟨heq, hkind⟩ := h.kind_eq
  refine ⟨heq, ?_⟩
  rcases hkind with hkind | hkind | hkind <;> rw [hkind]
  · exact hk.1.symm
  · exact hk.2.1.symm
  · exact hk.2.2.symm

theorem RenamesDeclaration.label_eq (h : RenamesDeclaration p q t t') : t'.label = t.label := by
  rcases h with ⟨_, h⟩ | ⟨_, h⟩
  · exact h.label
  · exact h.label

/-- A statement is of no other kind. -/
theorem RenamesStatement.kind_ne (h : RenamesStatement p q t t') {k : Kind}
    (hk : k ≠ .functionDeclaration ∧ k ≠ .lexicalDeclaration ∧ k ≠ .variableDeclaration)
    (hexport : k ≠ .exportStatement) : t'.kind = t.kind ∧ t.kind ≠ k := by
  rcases h with h | ⟨hkind, h⟩
  · exact h.kind_ne hk
  · exact ⟨h.kind, fun e => hexport (e.symm.trans hkind)⟩

theorem RenamesDeclaration.not_declares (h : RenamesDeclaration p q d d') (name : String) :
    TypeMember.declares name d = false ∧ TypeMember.declares name d' = false := by
  obtain ⟨heq, hk⟩ := h.kind_eq
  unfold TypeMember.declares
  rw [heq]
  rcases hk with hk | hk | hk <;> (rw [hk]; exact ⟨rfl, rfl⟩)

end declarations

end Tree

/-! ### What else is read of the sources -/

/-- Only expressions say anything for checks at run time. -/
theorem Mention.ofStatement_eq_nil {component : String} {t : Tree}
    (hk : t.kind ≠ .expressionStatement) : ofStatement component t = [] := by
  unfold ofStatement
  cases ha : t.content? with
  | none => rfl
  | some a =>
      cases hleft : a.part? .left with
      | none => simp [hleft]
      | some left =>
          cases hright : a.part? .right with
          | none => simp [hleft, hright]
          | some right => simp [hk]

namespace Source.Renames

variable {p q : String} {s s' : Source}

theorem findSome?_eq {α : Type} {f : Tree → Option α} (h : s.Renames p q s')
    (hf : ∀ t t', Tree.RenamesStatement p q t t' → f t' = f t) :
    s'.statements.findSome? f = s.statements.findSome? f := by
  have hmap : s'.statements.map f = s.statements.map f := by
    refine map_forall₂ h.statements fun t t' ht => ?_
    cases ht with
    | refl => rfl
    | single ht => exact hf t t' ht
  have hfind (ts : List Tree) : ts.findSome? f = (ts.map f).findSome? id := by
    rw [List.findSome?_map]
    rfl
  rw [hfind, hfind, hmap]

theorem flatMap_eq {α : Type} {f : Tree → List α} (h : s.Renames p q s')
    (hf : ∀ t t', Tree.RenamesStatement p q t t' → f t' = f t) :
    s'.statements.flatMap f = s.statements.flatMap f := by
  rw [List.flatMap_def, List.flatMap_def]
  refine congrArg List.flatten (map_forall₂ h.statements fun t t' ht => ?_)
  cases ht with
  | refl => rfl
  | single ht => exact hf t t' ht

/-- The sources declare and import the same. -/
theorem declaresAlike (h : s.Renames p q s') : s.DeclaresAlike s' := by
  refine ⟨h.path, fun name => h.findSome?_eq fun t t' ht => ?_,
    fun name => h.findSome?_eq fun t t' ht => ?_⟩
  · have hnone {d d' : Tree} (hd : Tree.RenamesDeclaration p q d d') :
        (some d').filter (TypeMember.declares name) = (some d).filter (TypeMember.declares name) := by
      rw [Option.filter_some, Option.filter_some, (hd.not_declares name).1, (hd.not_declares name).2]
      rfl
    unfold TypeMember.exported?
    rcases ht with ht | ⟨hk, ht⟩
    · obtain ⟨heq, hk⟩ := ht.kind_ne (k := .exportStatement) (by decide)
      rw [heq, if_neg hk, if_neg hk]
      exact hnone ht
    · rw [ht.kind, if_pos hk, if_pos hk]
      have hrel := ht.part? (fun _ _ hc => hc.label_eq) .declaration
      generalize t.part? .declaration = d at hrel
      generalize t'.part? .declaration = d' at hrel
      cases hrel with
      | none => rfl
      | some hd =>
          cases hd with
          | refl => rfl
          | single hd => exact hnone hd
  · obtain ⟨heq, hk⟩ := ht.kind_ne (k := .importStatement) (by decide) (by decide)
    rw [TypeMember.importedBy?, TypeMember.importedBy?, heq, if_neg hk, if_neg hk]

/-- They say the same for checks at run time. -/
theorem checks_eq (h : s.Renames p q s') (component : String) :
    s'.statements.flatMap (Mention.ofStatement component) =
      s.statements.flatMap (Mention.ofStatement component) := by
  refine h.flatMap_eq fun t t' ht => ?_
  obtain ⟨heq, hk⟩ := ht.kind_ne (k := .expressionStatement) (by decide) (by decide)
  rw [Mention.ofStatement_eq_nil hk, Mention.ofStatement_eq_nil (heq ▸ hk)]

end Source.Renames

namespace Tree

section candidates
variable {p q : String} {t t' d d' : Tree}

theorem RenamesDeclarator.declaredName?_eq (h : RenamesDeclarator p q t t') :
    Candidate.declaredName? t' = Candidate.declaredName? t := by
  have hname : t'.part? .name = t.part? .name := h.2.part?_eq (fun _ _ hf => hf.2.2.label)
    fun _ _ hf hl => by rw [hf.1] at hl; cases hl
  rw [Candidate.declaredName?, Candidate.declaredName?, h.2.kind, hname]

/-- Declarations that differ in such variables export the same. -/
theorem RenamesDeclaration.exports_eq (h : RenamesDeclaration p q d d') (isDefault : Bool) :
    Export.ofDeclaration isDefault d' = Export.ofDeclaration isDefault d := by
  rcases h with ⟨hk, h⟩ | ⟨hk, h⟩
  · rw [Export.ofDeclaration, Export.ofDeclaration, h.kind, if_pos hk, if_pos hk, h.name]
  · have hnames : d'.parts.filterMap Candidate.declaredName? =
        d.parts.filterMap Candidate.declaredName? := by
      refine filterMap_forall₂ (h.parts fun _ _ hc => hc.kind_eq.1) fun c c' hc => ?_
      cases hc with
      | refl => rfl
      | single hc => exact hc.declaredName?_eq
    obtain ⟨hno, hk'⟩ := h.isVariables hk
    rw [Export.ofDeclaration, Export.ofDeclaration, h.kind, if_neg hno, if_neg hno, if_pos hk,
      if_pos hk', hnames]

theorem RenamesStatement.exports_eq (h : RenamesStatement p q t t') :
    Export.ofStatement t' = Export.ofStatement t := by
  rcases h with h | ⟨hk, h⟩
  · obtain ⟨heq, hk⟩ := h.kind_ne (k := .exportStatement) (by decide)
    unfold Export.ofStatement
    rw [heq, decide_eq_true hk, Bool.true_or, Bool.true_or]
    rfl
  · have hlabel (c c' : Tree) (hc : RenamesDeclaration p q c c') : c'.label = c.label := hc.label_eq
    have hsource : (t'.part? .source).isSome = (t.part? .source).isSome := by
      have hrel := h.part? hlabel .source
      generalize t.part? .source = x at hrel
      generalize t'.part? .source = x' at hrel
      cases hrel <;> rfl
    have hdefault := h.hasMark_eq (fun _ _ hc => hc.kind_ne (by decide)) "default"
    have hclauses := h.filter_kind_eq (k := .exportClause) fun _ _ hc => hc.kind_ne (by decide)
    have hdeclaration := h.part? hlabel .declaration
    have hvalue := h.part? hlabel .value
    unfold Export.ofStatement
    rw [h.kind, hsource, hdefault, hclauses]
    generalize t.part? .declaration = d at hdeclaration
    generalize t'.part? .declaration = d' at hdeclaration
    generalize t.part? .value = v at hvalue
    generalize t'.part? .value = v' at hvalue
    cases hdeclaration with
    | some hd =>
        cases hd with
        | refl => rfl
        | single hd => simp only [hd.exports_eq]
    | none =>
        cases hvalue with
        | none => rfl
        | some hv =>
            cases hv with
            | refl => rfl
            | single hv =>
                obtain ⟨heq, hno⟩ := hv.kind_ne (k := .identifier) (by decide)
                simp [heq, hno]

theorem RenamesDeclarator.candidates (h : RenamesDeclarator p q t t') :
    Option.Rel (ReflGen (Candidate.Renames p q)) (Candidate.ofDeclarator? t)
      (Candidate.ofDeclarator? t') := by
  have hlabel (f f' : Tree) (hf : f.label = .value ∧ Candidate.isFunction f ∧
      RenamesParameter p q f f') : f'.label = f.label := hf.2.2.label
  have htype : t'.part? .type = t.part? .type := h.2.part?_eq hlabel
    fun _ _ hf hl => by rw [hf.1] at hl; cases hl
  have hvalue := h.2.part? hlabel .value
  unfold Candidate.ofDeclarator?
  rw [h.declaredName?_eq, htype, h.2.line]
  generalize t.part? .value = v at hvalue
  generalize t'.part? .value = v' at hvalue
  cases Candidate.declaredName? t with
  | none => exact .none
  | some name =>
      cases hvalue with
      | none => exact .none
      | @some f f' hf =>
          simp only [Option.bind_eq_bind, Option.bind_some]
          cases hf with
          | refl =>
              split
              · exact .some .refl
              · exact .none
          | single hf =>
              have hfunction : Candidate.isFunction f' = Candidate.isFunction f := by
                rw [Candidate.isFunction, hf.2.2.kind, Candidate.isFunction]
              rw [hfunction]
              split
              · exact .some (.single ⟨rfl, rfl, rfl, hf.2.2⟩)
              · exact .none

theorem RenamesDeclaration.candidates (h : RenamesDeclaration p q d d') :
    List.Forall₂ (ReflGen (Candidate.Renames p q)) (Candidate.ofDeclaration d)
      (Candidate.ofDeclaration d') := by
  rcases h with ⟨hk, h⟩ | ⟨hk, h⟩
  · unfold Candidate.ofDeclaration Candidate.ofFunction?
    rw [h.kind, if_pos hk, if_pos hk, h.name, h.line]
    cases d.part? .name with
    | none => exact .nil
    | some n =>
        simp only [Option.bind_eq_bind, Option.bind_some]
        split
        · exact .cons (.single ⟨rfl, rfl, rfl, h⟩) .nil
        · exact .nil
  · obtain ⟨hno, hk'⟩ := h.isVariables hk
    unfold Candidate.ofDeclaration
    rw [h.kind, if_neg hno, if_neg hno, if_pos hk, if_pos hk']
    refine List.rel_filterMap (fun c c' hc => ?_) (h.parts fun _ _ hc => hc.kind_eq.1)
    cases hc with
    | refl =>
        cases Candidate.ofDeclarator? c with
        | none => exact .none
        | some x => exact .some .refl
    | single hc => exact hc.candidates

end candidates

end Tree

namespace Source.Renames

variable {p q : String} {s s' : Source}

theorem exports_eq (h : s.Renames p q s') : Export.ofSource s' = Export.ofSource s :=
  h.flatMap_eq fun _ _ ht => ht.exports_eq

/-- The candidates are the same, or differ in the variables in which they take the props. -/
theorem candidates (h : s.Renames p q s') : List.Forall₂ (ReflGen (Candidate.Renames p q))
    (Candidate.ofSource s) (Candidate.ofSource s') := by
  have hrefl (cs : List Candidate) : List.Forall₂ (ReflGen (Candidate.Renames p q)) cs cs :=
    List.forall₂_same.mpr fun _ _ => .refl
  refine List.rel_flatMap h.statements fun t t' ht => ?_
  cases ht with
  | refl => exact hrefl _
  | single ht =>
      unfold Candidate.declarationOf?
      rcases ht with ht | ⟨hk, ht⟩
      · obtain ⟨heq, hk⟩ := ht.kind_ne (k := .exportStatement) (by decide)
        rw [heq, if_neg hk, if_neg hk]
        exact ht.candidates
      · have hlabel (c c' : Tree) (hc : Tree.RenamesDeclaration p q c c') : c'.label = c.label :=
          hc.label_eq
        have hsource := ht.part? hlabel .source
        have hdeclaration := ht.part? hlabel .declaration
        rw [ht.kind, if_pos hk, if_pos hk]
        generalize t.part? .source = x at hsource
        generalize t'.part? .source = x' at hsource
        generalize t.part? .declaration = d at hdeclaration
        generalize t'.part? .declaration = d' at hdeclaration
        cases hsource with
        | some _ => exact .nil
        | none =>
            cases hdeclaration with
            | none => exact .nil
            | some hd =>
                cases hd with
                | refl => exact hrefl _
                | single hd => exact hd.candidates

end Source.Renames

end Trellis
