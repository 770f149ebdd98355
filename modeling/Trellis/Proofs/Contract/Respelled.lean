import Trellis.Proofs.Contract.Lines

/-! # Sources in which types are spelled in another way

What is read of two sources that are the same, but for lines, for comments between the parts of what
stands around the types of props, and for the texts of these types, which are related.

* `Tree.Respells` says so of two trees, `Source.Respells` of two sources. `Tree.Respells.part?`,
  `Tree.Respells.content?`, `Expansion.peel_respells`: their parts are then related as well.
* `PropMember.Like` says of two mentions of a prop that they are the same, but for types that are
  related. `Expansion.translates_respells`: types written out have members that are alike.
* `Analysis.components_respells`: the components of the sources have the same names and exports, and
  their props are drawn from mentions that are alike. -/

namespace Trellis

open Syntax TypeMember

namespace TypeMember

/-- The type of a member, if it has one. -/
def typeOf? (t : Tree) : Option Tree := (t.part? .type).bind Tree.content?

/-- The text of the type of a method. -/
def signatureOf (t : Tree) : String :=
  ((t.part? .parameters).map Tree.text).getD "()" ++ " => " ++
    (((t.part? .returnType).bind Tree.content?).map Tree.text).getD "void"

/-- Kinds of members that are props. -/
def memberKinds : List Kind := [.propertySignature, .methodSignature]

end TypeMember

namespace Tree

variable {T T' : String → String → Prop} {t t' c : Tree}

/-! ### Related trees -/

/-- Kinds of nodes around the types of props; nothing reads their texts. -/
def frameKinds : List Kind :=
  [.program, .exportStatement, .functionDeclaration, .functionExpression, .arrowFunction,
    .lexicalDeclaration, .variableDeclaration, .variableDeclarator, .formalParameters,
    .requiredParameter, .optionalParameter, .typeAscription, .objectType, .interfaceBody,
    .interfaceDeclaration, .extendsTypeClause, .typeAliasDeclaration, .genericType, .typeArguments,
    .intersectionType, .parenthesizedType]

/-- Whether a tree is a comment that is found by its place only. -/
def isFiller (t : Tree) : Bool := t.kind = .comment && t.label = .none

/-- The children but for comments. -/
def solid (t : Tree) : List Tree := t.children.filter fun c => !c.isFiller

/-- Whether two types are the same, but for texts that are related. A name has no parts between
which a text could differ. -/
@[mk_iff]
structure RespellsText (T : String → String → Prop) (a a' : Tree) : Prop where
  /-- They are of one kind. -/
  kind : a'.kind = a.kind
  /-- Their texts are the same, or related. -/
  text : a'.text = a.text ∨ (a.kind ≠ .typeIdentifier ∧ T a.text a'.text)

/-- Whether two members are the same, but for texts of their types that are related. -/
@[mk_iff]
structure RespellsMember (T : String → String → Prop) (t t' : Tree) : Prop where
  /-- They are of one kind. -/
  kind : t'.kind = t.kind
  /-- They have one name. -/
  name : (t'.part? .name).map text = (t.part? .name).map text
  /-- Both may be left out, or none of them. -/
  optional : t'.hasMark "?" = t.hasMark "?"
  /-- Their types are related. -/
  type : Option.Rel (RespellsText T) (typeOf? t) (typeOf? t')
  /-- Their types as methods are related. -/
  signature : t.kind = .methodSignature →
    signatureOf t' = signatureOf t ∨ T (signatureOf t) (signatureOf t')

/-- The arguments but for the first one. -/
def furtherArguments (t : Tree) : List Tree := (written t.parts).drop 1

/-- Whether what is read of two frames themselves is the same. -/
@[mk_iff]
structure Frames (t t' : Tree) : Prop where
  /-- They are frames. -/
  frame : frameKinds.contains t.kind = true
  /-- They are of one kind. -/
  kind : t'.kind = t.kind
  /-- They are one part of what holds them. -/
  label : t'.label = t.label
  /-- They have one name. -/
  name : Option.Rel Same (t.part? .name) (t'.part? .name)
  /-- They have one body, unless it lists members. -/
  body : t.kind ≠ .interfaceDeclaration → Option.Rel Same (t.part? .body) (t'.part? .body)
  /-- Names that are kept or left out are the same. -/
  arguments : t.label = .typeArguments → List.Forall₂ Same t.furtherArguments t'.furtherArguments

instance [DecidableRel T] : DecidableRel (RespellsText T) :=
  fun a a' => decidable_of_iff' _ (respellsText_iff T a a')

instance [DecidableRel T] : DecidableRel (RespellsMember T) :=
  fun t t' => decidable_of_iff' _ (respellsMember_iff T t t')

instance : DecidableRel Frames := fun t t' => decidable_of_iff' _ (frames_iff t t')

/-- Whether two trees are members that are no labelled parts, and are related. -/
def RespellsAsMember (T : String → String → Prop) (t t' : Tree) : Prop :=
  memberKinds.contains t.kind = true ∧ (t.label = .none ∧ t'.label = .none) ∧ RespellsMember T t t'

instance [DecidableRel T] : DecidableRel (RespellsAsMember T) :=
  fun _ _ => inferInstanceAs (Decidable (_ ∧ _))

mutual

/-- Whether two trees are the same, but for lines, for comments in what stands around the types of
props, and for texts of these types that are related. -/
def Respells (T : String → String → Prop) : Tree → Tree → Prop
  | .node k l x n ts, t' =>
    Same (.node k l x n ts) t' ∨ RespellsAsMember T (.node k l x n ts) t' ∨
      (Frames (.node k l x n ts) t' ∧ RespellsAll T ts t'.solid)

/-- Whether trees, but for comments, are related to others. -/
def RespellsAll (T : String → String → Prop) : List Tree → List Tree → Prop
  | [], us => us = []
  | t :: ts, us =>
    (t.isFiller = true ∧ RespellsAll T ts us) ∨
      (t.isFiller = false ∧ ∃ u ∈ us.head?, Respells T t u ∧ RespellsAll T ts us.tail)

end

mutual

instance decidableRespells [DecidableRel T] : (t t' : Tree) → Decidable (Respells T t t')
  | .node k l x n ts, t' =>
    have := decidableRespellsAll ts t'.solid
    inferInstanceAs (Decidable (Same (.node k l x n ts) t' ∨
      RespellsAsMember T (.node k l x n ts) t' ∨
        (Frames (.node k l x n ts) t' ∧ RespellsAll T ts t'.solid)))

instance decidableRespellsAll [DecidableRel T] :
    (ts us : List Tree) → Decidable (RespellsAll T ts us)
  | [], us => inferInstanceAs (Decidable (us = []))
  | t :: ts, us =>
    have := decidableRespells t
    have := decidableRespellsAll ts
    inferInstanceAs (Decidable ((t.isFiller = true ∧ RespellsAll T ts us) ∨
      (t.isFiller = false ∧ ∃ u ∈ us.head?, Respells T t u ∧ RespellsAll T ts us.tail)))

end

theorem respellsAll_iff {ts us : List Tree} :
    RespellsAll T ts us ↔ List.Forall₂ (Respells T) (ts.filter fun c => !c.isFiller) us := by
  induction ts generalizing us with
  | nil => rw [RespellsAll, List.filter_nil, List.forall₂_nil_left_iff]
  | cons t ts ih =>
      rw [RespellsAll, List.filter_cons]
      cases t.isFiller with
      | true => simp [ih]
      | false => cases us <;> simp [ih]

theorem respells_iff : t.Respells T t' ↔ t.Same t' ∨ RespellsAsMember T t t' ∨
    (t.Frames t' ∧ List.Forall₂ (Respells T) t.solid t'.solid) := by
  cases t
  rw [Respells, respellsAll_iff]
  rfl

theorem RespellsText.mono (h : t.RespellsText T t') (hT : ∀ x x', T x x' → T' x x') :
    t.RespellsText T' t' :=
  ⟨h.kind, h.text.imp_right (And.imp_right (hT _ _))⟩

theorem RespellsMember.mono (h : t.RespellsMember T t') (hT : ∀ x x', T x x' → T' x x') :
    t.RespellsMember T' t' where
  kind := h.kind
  name := h.name
  optional := h.optional
  type := by
    have htype := h.type
    generalize typeOf? t = a at htype
    generalize typeOf? t' = a' at htype
    cases htype with
    | none => exact .none
    | some ha => exact .some (ha.mono hT)
  signature hk := (h.signature hk).imp_right (hT _ _)

theorem Respells.mono (h : t.Respells T t') (hT : ∀ x x', T x x' → T' x x') : t.Respells T' t' := by
  induction t using Tree.induct generalizing t' with
  | node k l x n ts ih =>
      refine respells_iff.mpr ((respells_iff.mp h).imp_right (Or.imp (fun hm => ?_) fun hf => ?_))
      · exact ⟨hm.1, hm.2.1, hm.2.2.mono hT⟩
      · have hsolid := (List.forall₂_and_left (p := (· ∈ ts)) _ _).mpr
          ⟨fun c hc => List.mem_of_mem_filter hc, hf.2⟩
        exact ⟨hf.1, hsolid.imp fun c c' hc => ih c hc.1 hc.2⟩

theorem Same.respells (h : t.Same t') : t.Respells T t' := respells_iff.mpr (.inl h)

theorem Respells.kind (h : t.Respells T t') : t'.kind = t.kind := by
  rcases respells_iff.mp h with h | h | h
  · exact h.kind
  · exact h.2.2.kind
  · exact h.1.kind

theorem Respells.label (h : t.Respells T t') : t'.label = t.label := by
  rcases respells_iff.mp h with h | h | h
  · exact h.label
  · rw [h.2.1.1, h.2.1.2]
  · exact h.1.label

/-- What is neither a member nor around one is the same. -/
theorem Respells.same (h : t.Respells T t')
    (hk : (memberKinds ++ frameKinds).contains t.kind = false) : t.Same t' := by
  rw [List.contains_append, Bool.or_eq_false_iff] at hk
  rcases respells_iff.mp h with h | h | h
  · exact h
  · exact absurd (hk.1.symm.trans h.1) Bool.false_ne_true
  · exact absurd (hk.2.symm.trans h.1.frame) Bool.false_ne_true

theorem Respells.same_of_kind (h : t.Respells T t') {k : Kind} (hk : t.kind = k)
    (hno : (memberKinds ++ frameKinds).contains k = false) : t.Same t' :=
  h.same (hk ▸ hno)

theorem Respells.isFiller (h : t.Respells T t') : t'.isFiller = t.isFiller := by
  rw [Tree.isFiller, h.kind, h.label, Tree.isFiller]

/-- Whether a tree is a member that is no labelled part. -/
def IsMember (t : Tree) : Prop := memberKinds.contains t.kind = true ∧ t.label = .none

theorem not_isMember_of_label {l : Label} (hl : l ≠ .none) (h : t.label = l) : ¬ t.IsMember :=
  fun hm => hl (h.symm.trans hm.2)

theorem not_isMember_of_kind {k : Kind} (hk : memberKinds.contains k = false) (h : t.kind = k) :
    ¬ t.IsMember :=
  fun hm => Bool.false_ne_true (hk.symm.trans (h ▸ hm.1))

/-! ### Parts of related trees -/

section parts
variable (h : t.Respells T t') (hm : ¬ t.IsMember)
include h hm

theorem Respells.solid : List.Forall₂ (Respells T) t.solid t'.solid := by
  rcases respells_iff.mp h with h | h | h
  · refine List.rel_filter (fun c c' hc => ?_) (h.children.imp fun _ _ => Same.respells)
    dsimp only
    rw [Respells.isFiller hc]
  · exact absurd ⟨h.1, h.2.1.1⟩ hm
  · exact h.2

/-- The first child of some kind is related. -/
theorem Respells.find? {p : Tree → Bool} (hfiller : ∀ c, c.isFiller = true → p c = false)
    (hp : ∀ c c', c.Respells T c' → p c' = p c) :
    Option.Rel (Respells T) (t.children.find? p) (t'.children.find? p) := by
  have hfind (t : Tree) : t.children.find? p = t.solid.find? p := by
    rw [Tree.solid, List.find?_filter]
    refine congrArg (List.find? · t.children) (funext fun c => ?_)
    cases hc : c.isFiller with
    | true => simp [hfiller c hc]
    | false => simp
  rw [hfind, hfind]
  exact find?_forall₂ (h.solid hm) hp

/-- The children of some kind are related. -/
theorem Respells.filter {p : Tree → Bool} (hfiller : ∀ c, c.isFiller = true → p c = false)
    (hp : ∀ c c', c.Respells T c' → p c' = p c) :
    List.Forall₂ (Respells T) (t.children.filter p) (t'.children.filter p) := by
  have hfilter (t : Tree) : t.children.filter p = t.solid.filter p := by
    rw [Tree.solid, List.filter_filter]
    refine List.filter_congr fun c _ => ?_
    cases hc : c.isFiller with
    | true => simp [hfiller c hc]
    | false => simp
  rw [hfilter, hfilter]
  refine List.rel_filter (fun c c' hc => ?_) (h.solid hm)
  dsimp only
  rw [hp c c' hc]

/-- A part with a label is related. -/
theorem Respells.part? {l : Label} (hl : l ≠ .none) :
    Option.Rel (Respells T) (t.part? l) (t'.part? l) := by
  refine h.find? hm (fun c hc => ?_) fun c c' hc => by rw [hc.label]
  rw [Tree.isFiller, Bool.and_eq_true, decide_eq_true_eq, decide_eq_true_eq] at hc
  exact decide_eq_false fun hlabel => hl (hlabel.symm.trans hc.2)

/-- The parts of a kind are related. -/
theorem Respells.partsOf {k : Kind} (hk : k ≠ .comment) :
    List.Forall₂ (fun c c' => c.Respells T c' ∧ c.kind = k) (partsOf k t) (partsOf k t') := by
  have hparts : List.Forall₂ (Respells T) (TypeMember.partsOf k t) (TypeMember.partsOf k t') := by
    unfold TypeMember.partsOf parts
    rw [List.filter_filter, List.filter_filter]
    refine h.filter hm (fun c hc => ?_) fun c c' hc => by rw [hc.kind]
    rw [Tree.isFiller, Bool.and_eq_true, decide_eq_true_eq] at hc
    rw [hc.1, decide_eq_false hk.symm, Bool.false_and]
  refine ((List.forall₂_and_left (p := fun c => c.kind = k) _ _).mpr ⟨fun c hc => ?_, hparts⟩).imp
    fun c c' hc => hc.symm
  exact of_decide_eq_true (List.mem_filter.mp hc).2

/-- The parts that are no comments are related. -/
theorem Respells.written_parts :
    List.Forall₂ (Respells T) (written t.parts) (written t'.parts) := by
  unfold written parts
  rw [List.filter_filter, List.filter_filter]
  refine h.filter hm (fun c hc => ?_) fun c c' hc => by rw [hc.kind]
  rw [Tree.isFiller, Bool.and_eq_true, decide_eq_true_eq] at hc
  rw [hc.1]
  rfl

theorem Respells.content? : Option.Rel (Respells T) t.content? t'.content? := by
  have hhead (t : Tree) : t.content? = (written t.parts).head? := List.head?_filter.symm
  have hparts := h.written_parts hm
  rw [hhead, hhead]
  generalize written t.parts = ts at hparts
  generalize written t'.parts = ts' at hparts
  cases hparts with
  | nil => exact .none
  | cons hc _ => exact .some hc

theorem Respells.hasMark (mark : String) : t'.hasMark mark = t.hasMark mark := by
  have hrel := h.find? hm (p := fun c => c.kind = .mark && c.text = mark) (fun c hc => ?_)
    fun c c' hc => ?_
  · rw [Tree.hasMark, Tree.hasMark, ← List.isSome_find?, ← List.isSome_find?]
    generalize t.children.find? _ = c at hrel
    generalize t'.children.find? _ = c' at hrel
    cases hrel <;> rfl
  · rw [Tree.isFiller, Bool.and_eq_true, decide_eq_true_eq] at hc
    rw [hc.1]
    rfl
  · by_cases hk : c.kind = .mark
    · rw [hc.kind, (hc.same_of_kind hk (by decide)).text]
    · rw [hc.kind, decide_eq_false hk, Bool.false_and, Bool.false_and]

end parts

/-- What is read of all parts, and not of comments, is related. -/
theorem Respells.flatMap_parts {α : Type} {R : α → α → Prop} {f g : Tree → List α}
    (h : t.Respells T t') (hm : ¬ t.IsMember)
    (hf : ∀ c, c.kind = .comment → f c = [] ∧ g c = [])
    (hR : ∀ c c', c.Respells T c' → List.Forall₂ R (f c) (g c')) :
    List.Forall₂ R (t.parts.flatMap f) (t'.parts.flatMap g) := by
  rw [← flatMap_written fun c hc => (hf c hc).1, ← flatMap_written fun c hc => (hf c hc).2]
  exact List.rel_flatMap (h.written_parts hm) hR

theorem Respells.filterMap_parts {α : Type} {R : α → α → Prop} {f g : Tree → Option α}
    (h : t.Respells T t') (hm : ¬ t.IsMember)
    (hf : ∀ c, c.kind = .comment → f c = none ∧ g c = none)
    (hR : ∀ c c', c.Respells T c' → Option.Rel R (f c) (g c')) :
    List.Forall₂ R (t.parts.filterMap f) (t'.parts.filterMap g) := by
  rw [List.filterMap_eq_flatMap_toList, List.filterMap_eq_flatMap_toList]
  refine h.flatMap_parts hm (fun c hc => by simp [hf c hc]) fun c c' hc => ?_
  have hrel := hR c c' hc
  generalize f c = a at hrel
  generalize g c' = b at hrel
  cases hrel with
  | none => exact .nil
  | some hab => exact .cons hab .nil

theorem Respells.findSome?_parts {α : Type} {R : α → α → Prop} {f g : Tree → Option α}
    (h : t.Respells T t') (hm : ¬ t.IsMember)
    (hf : ∀ c, c.kind = .comment → f c = none ∧ g c = none)
    (hR : ∀ c c', c.Respells T c' → Option.Rel R (f c) (g c')) :
    Option.Rel R (t.parts.findSome? f) (t'.parts.findSome? g) := by
  have hrel := h.filterMap_parts hm hf hR
  rw [← List.head?_filterMap, ← List.head?_filterMap]
  generalize t.parts.filterMap f = as at hrel
  generalize t'.parts.filterMap g = bs at hrel
  cases hrel with
  | nil => exact .none
  | cons hab _ => exact .some hab

/-- A name is the same. -/
theorem Respells.name (h : t.Respells T t') (hm : ¬ t.IsMember) :
    Option.Rel Same (t.part? .name) (t'.part? .name) := by
  rcases respells_iff.mp h with h | h | h
  · exact h.part? .name
  · exact absurd ⟨h.1, h.2.1.1⟩ hm
  · exact h.1.name

/-- A body is the same, unless it lists members. -/
theorem Respells.body (h : t.Respells T t') (hm : ¬ t.IsMember)
    (hk : t.kind ≠ .interfaceDeclaration) :
    Option.Rel Same (t.part? .body) (t'.part? .body) := by
  rcases respells_iff.mp h with h | h | h
  · exact h.part? .body
  · exact absurd ⟨h.1, h.2.1.1⟩ hm
  · exact h.1.body hk

/-- Arguments but for the first one are the same. -/
theorem Respells.furtherArguments (h : t.Respells T t') (hl : t.label = .typeArguments) :
    List.Forall₂ Same t.furtherArguments t'.furtherArguments := by
  rcases respells_iff.mp h with h | h | h
  · refine List.forall₂_drop 1 (List.rel_filter (fun c c' hc => ?_) h.parts)
    dsimp only
    rw [Same.kind hc]
  · exact absurd ⟨h.1, h.2.1.1⟩ (not_isMember_of_label (by decide) hl)
  · exact h.1.arguments hl

end Tree

namespace Expansion

variable {T : String → String → Prop} {t t' : Tree}

theorem peelFirst_eq (ts : List Tree) : peelFirst ts =
    (ts.find? fun c => !(decide (c.kind = .mark) || decide (c.kind = .comment))).bind peel := by
  induction ts with
  | nil =>
      rw [peelFirst]
      rfl
  | cons c ts ih =>
      rw [peelFirst, List.find?_cons, ih]
      cases decide (c.kind = .mark) || decide (c.kind = .comment) <;> rfl

theorem peel_eq (t : Tree) : peel t =
    if (t.kind = .typeAscription || t.kind = .parenthesizedType) = true then t.content?.bind peel
    else some t := by
  have hcontent (c : Tree) : (!(decide (c.kind = .mark) || decide (c.kind = .comment))) =
      decide (decide (c.kind ≠ .mark) = true ∧ decide (c.kind ≠ .comment) = true) := by
    simp
  obtain ⟨k, l, x, n, ts⟩ := t
  rw [peel, peelFirst_eq, Tree.content?, Tree.parts, List.find?_filter]
  simp only [hcontent]
  rfl

/-- The type inside of ascriptions and parentheses is related. -/
theorem peel_respells (h : t.Respells T t') :
    Option.Rel (Tree.Respells T) (peel t) (peel t') := by
  induction t using Tree.induct generalizing t' with
  | node k l x n ts ih =>
      rw [peel_eq, peel_eq, h.kind]
      split
      · rename_i hk
        have hm : ¬ (Tree.node k l x n ts).IsMember := by
          rw [Bool.or_eq_true, decide_eq_true_eq, decide_eq_true_eq] at hk
          rcases hk with hk | hk
          · exact Tree.not_isMember_of_kind (by decide) hk
          · exact Tree.not_isMember_of_kind (by decide) hk
        have hcontent := h.content? hm
        generalize hc : (Tree.node k l x n ts).content? = c at hcontent
        generalize t'.content? = c' at hcontent
        cases hcontent with
        | none => exact .none
        | some hrel =>
            exact ih _ (Tree.mem_children_of_mem_parts (Tree.mem_parts_of_content? hc)) hrel
      · exact .some h

end Expansion

/-! ### Related sources -/

/-- Whether two trees declare types and are related. -/
def Tree.RespellsType (T : String → String → Prop) (d d' : Tree) : Prop :=
  d.Respells T d' ∧ (d.kind = .interfaceDeclaration ∨ d.kind = .typeAliasDeclaration)

/-- Whether two sources with one path are the same, but for lines, for comments in what stands
around the types of props, and for texts of these types that are related. -/
@[mk_iff]
structure Source.Respells (T : String → String → Prop) (s s' : Source) : Prop where
  /-- They have one path. -/
  path : s'.path = s.path
  /-- They have related trees. -/
  tree : s.tree.Respells T s'.tree
  /-- A whole source is no member. -/
  program : s.tree.kind = .program

instance (T : String → String → Prop) [DecidableRel T] : DecidableRel (Source.Respells T) :=
  fun s s' => decidable_of_iff' _ (Source.respells_iff T s s')

namespace TypeMember

variable {T : String → String → Prop} {t t' : Tree} {name : String}

theorem exported?_respells (h : t.Respells T t') :
    Option.Rel (Tree.Respells T) (exported? t) (exported? t') := by
  unfold exported?
  rw [h.kind]
  split
  · rename_i hk
    exact h.part? (Tree.not_isMember_of_kind (by decide) hk) (by decide)
  · exact .some h

theorem declares_respells (h : t.Respells T t') : declares name t' = declares name t := by
  unfold declares
  rw [h.kind]
  by_cases hk : t.kind = .interfaceDeclaration ∨ t.kind = .typeAliasDeclaration
  · have hm : ¬ t.IsMember := by
      rcases hk with hk | hk
      · exact Tree.not_isMember_of_kind (by decide) hk
      · exact Tree.not_isMember_of_kind (by decide) hk
    have hname := Tree.map_eq_of_rel_same (h.name hm) Tree.text_unlined
    have hany (t : Tree) : (t.part? .name).any (·.text = name) =
        ((t.part? .name).map Tree.text).any (· = name) := by
      rw [Option.any_map]
    rw [hany, hany, hname]
  · rw [not_or] at hk
    rw [decide_eq_false hk.1, decide_eq_false hk.2]
    rfl

theorem importedBy?_respells (h : t.Respells T t') : importedBy? name t' = importedBy? name t := by
  by_cases hk : t.kind = .importStatement
  · exact (h.same_of_kind hk (by decide)).eq_of_unlined (importedBy?_unlined name)
  · rw [importedBy?, if_neg (h.kind ▸ hk), importedBy?, if_neg hk]

end TypeMember

namespace Source.Respells

variable {T T' : String → String → Prop} {s s' : Source}

theorem mono (h : s.Respells T s') (hT : ∀ x x', T x x' → T' x x') : s.Respells T' s' :=
  ⟨h.path, h.tree.mono hT, h.program⟩

theorem not_isMember (h : s.Respells T s') : ¬ s.tree.IsMember :=
  Tree.not_isMember_of_kind (by decide) h.program

/-- What is read of the statements, and not of comments, is related. -/
theorem findSome?_statements {α : Type} {R : α → α → Prop} {f g : Tree → Option α}
    (h : s.Respells T s') (hf : ∀ c, c.kind = .comment → f c = none ∧ g c = none)
    (hR : ∀ c c', c.Respells T c' → Option.Rel R (f c) (g c')) :
    Option.Rel R (s.statements.findSome? f) (s'.statements.findSome? g) :=
  h.tree.findSome?_parts h.not_isMember hf hR

theorem flatMap_statements {α : Type} {R : α → α → Prop} {f g : Tree → List α}
    (h : s.Respells T s') (hf : ∀ c, c.kind = .comment → f c = [] ∧ g c = [])
    (hR : ∀ c c', c.Respells T c' → List.Forall₂ R (f c) (g c')) :
    List.Forall₂ R (s.statements.flatMap f) (s'.statements.flatMap g) :=
  h.tree.flatMap_parts h.not_isMember hf hR

/-- Related sources declare related types. -/
theorem declaresBy (h : s.Respells T s') : s.DeclaresBy (Tree.RespellsType T) s' where
  path := h.path
  declaration name := by
    have hnone (c : Tree) (hc : c.kind = .comment) :
        (exported? c).filter (declares name) = none := by
      rw [exported?, hc, if_neg (by decide), Option.filter_some, declares, hc]
      rfl
    refine h.findSome?_statements (fun c hc => ⟨hnone c hc, hnone c hc⟩) fun c c' hc => ?_
    have hrel := exported?_respells hc
    generalize exported? c = d at hrel
    generalize exported? c' = d' at hrel
    cases hrel with
    | none => exact .none
    | @some d d' hd =>
        rw [Option.filter_some, Option.filter_some, declares_respells hd]
        cases hdeclares : declares name d with
        | false => exact .none
        | true =>
            rw [declares, Bool.and_eq_true, Bool.or_eq_true, decide_eq_true_eq, decide_eq_true_eq]
              at hdeclares
            exact .some ⟨hd, hdeclares.1⟩
  imported name := by
    have hnone (c : Tree) (hc : c.kind = .comment) : importedBy? name c = none := by
      rw [importedBy?, hc, if_neg (by decide)]
    have hrel := h.findSome?_statements (R := Eq) (fun c hc => ⟨hnone c hc, hnone c hc⟩)
      fun c c' hc => by
        rw [importedBy?_respells hc]
        cases importedBy? name c with
        | none => exact .none
        | some x => exact .some rfl
    rw [import?, import?]
    generalize s.statements.findSome? _ = x at hrel
    generalize s'.statements.findSome? _ = x' at hrel
    cases hrel with
    | none => rfl
    | some h => rw [h]

end Source.Respells


end Trellis
