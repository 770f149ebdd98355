import Mathlib.Data.List.Basic
import Mathlib.Tactic.MkIffOfInductiveProp
import Trellis.Contract.Analysis

/-! # Variables with another name

What is read of a body in which a variable has another name.

* `Tree.rename` gives a variable another name. A text around it holds the name as well; it is not
  written anew but left out, and `Tree.hidden` stands for it. So two bodies differ in the name of a
  variable only if they are the same once it has one name in both.
* `Tree.NamesApart` says that what is read as a name or a literal does not depend on the variable. Of
  what sources hold, only computed keys of patterns may.
* `Mention.ofBody_rename`: the members of the variable stay. `Mentions.ofCondition_rename`: the props in
  a condition stay if both names are clear (`ClearNames`). -/

namespace Trellis

open Syntax

namespace Tree

/-! ### Trees and what is below them -/

/-- Induction on trees. -/
theorem induct {motive : Tree → Prop}
    (node : ∀ k l x n ts, (∀ t ∈ ts, motive t) → motive (.node k l x n ts)) (t : Tree) : motive t :=
  @Tree.rec motive (fun ts => ∀ t ∈ ts, motive t) node (fun _ h => absurd h List.not_mem_nil)
    (fun _ _ ht hts _ h => (List.mem_cons.mp h).elim (fun e => e ▸ ht) (hts _)) t

mutual

/-- Whether two trees are the same. -/
def decEq : (t u : Tree) → Decidable (t = u)
  | .node k l x n ts, .node k' l' x' n' ts' =>
    have := decEqAll ts ts'
    decidable_of_iff' (k = k' ∧ l = l' ∧ x = x' ∧ n = n' ∧ ts = ts') (by rw [node.injEq])

/-- Whether two lists of trees are the same. -/
def decEqAll : (ts us : List Tree) → Decidable (ts = us)
  | [], [] => .isTrue rfl
  | [], _ :: _ => .isFalse nofun
  | _ :: _, [] => .isFalse nofun
  | t :: ts, u :: us =>
    have := decEq t u
    have := decEqAll ts us
    decidable_of_iff' (t = u ∧ ts = us) (by rw [List.cons.injEq])

end

instance : DecidableEq Tree := decEq

theorem descendantsOfAll_eq (ts : List Tree) : descendantsOfAll ts =
    ts.flatMap fun t => if t.kind = .mark then [] else t.descendants := by
  induction ts with
  | nil => rw [descendantsOfAll, List.flatMap_nil]
  | cons t ts ih => rw [descendantsOfAll, List.flatMap_cons, ih]

theorem descendants_eq (t : Tree) : t.descendants =
    t :: t.children.flatMap fun c => if c.kind = .mark then [] else c.descendants := by
  cases t
  rw [descendants, descendantsOfAll_eq]
  rfl

theorem self_mem_descendants (t : Tree) : t ∈ t.descendants := by
  rw [descendants_eq]
  exact List.mem_cons_self

theorem mem_descendants_iff {t d : Tree} :
    d ∈ t.descendants ↔ d = t ∨ ∃ c ∈ t.children, c.kind ≠ .mark ∧ d ∈ c.descendants := by
  rw [descendants_eq, List.mem_cons, List.mem_flatMap]
  refine or_congr_right (exists_congr fun c => and_congr_right fun _ => ?_)
  split <;> simp [*]

theorem mem_children_of_part? {t c : Tree} {l : Label} (h : t.part? l = some c) :
    c ∈ t.children ∧ c.label = l :=
  ⟨List.mem_of_find?_eq_some h, by simpa using List.find?_some h⟩

theorem mem_children_of_mem_parts {t c : Tree} (h : c ∈ t.parts) : c ∈ t.children :=
  (List.mem_filter.mp h).1

theorem mem_parts_of_content? {t c : Tree} (h : t.content? = some c) : c ∈ t.parts :=
  List.mem_of_find?_eq_some h

mutual

/-- Whether all nodes of a tree have a property. -/
def Each (P : Tree → Prop) : Tree → Prop
  | .node k l x n ts => P (.node k l x n ts) ∧ EachOf P ts

/-- Whether all nodes of some trees have a property. -/
def EachOf (P : Tree → Prop) : List Tree → Prop
  | [] => True
  | t :: ts => Each P t ∧ EachOf P ts

end

section each
variable {P : Tree → Prop} {t c : Tree}

theorem eachOf_iff {ts : List Tree} : EachOf P ts ↔ ∀ t ∈ ts, Each P t := by
  induction ts with
  | nil => simp [EachOf]
  | cons t ts ih => simp [EachOf, ih]

theorem Each.self (h : Each P t) : P t := by
  cases t
  rw [Each] at h
  exact h.1

theorem Each.of_mem (h : Each P t) (hc : c ∈ t.children) : Each P c := by
  cases t
  rw [Each] at h
  exact eachOf_iff.mp h.2 c hc

theorem Each.of_mem_parts (h : Each P t) (hc : c ∈ t.parts) : Each P c :=
  h.of_mem (mem_children_of_mem_parts hc)

theorem Each.of_part? {l : Label} (h : Each P t) (hc : t.part? l = some c) : Each P c :=
  h.of_mem (mem_children_of_part? hc).1

mutual

instance decidableEach [DecidablePred P] : (t : Tree) → Decidable (Each P t)
  | .node k l x n ts =>
    have := decidableEachOf ts
    inferInstanceAs (Decidable (P (.node k l x n ts) ∧ EachOf P ts))

instance decidableEachOf [DecidablePred P] : (ts : List Tree) → Decidable (EachOf P ts)
  | [] => .isTrue trivial
  | t :: ts =>
    have := decidableEach t
    have := decidableEachOf ts
    inferInstanceAs (Decidable (Each P t ∧ EachOf P ts))

end

end each

/-! ### Another name -/

/-- Whether a kind is that of a tag. -/
def isTag (k : Kind) : Bool :=
  k = .openingElement || k = .selfClosingElement || k = .closingElement

/-- Whether a child of a tree of some kind is a name in markup: of a tag, or of an attribute in a
namespace. A tag that is a member of a variable is none. -/
def isName (parent : Kind) (t : Tree) : Bool :=
  (isTag parent && t.label = .name && (t.kind = .identifier || t.kind = .namespaceName)) ||
    (parent = .attribute && t.kind = .namespaceName)

mutual

/-- Whether a variable stands in a tree. -/
def uses (name : String) : Tree → Bool
  | .node k _ x _ ts =>
    ((k = .identifier || k = .shorthandProperty) && x = name) || usesAny name k ts

/-- Whether a variable stands in some of the children of a tree. -/
def usesAny (name : String) (parent : Kind) : List Tree → Bool
  | [] => false
  | t :: ts => (!isName parent t && uses name t) || usesAny name parent ts

end

/-- What stands for a text that holds the name of a variable: it is computed, and no name of a tag. -/
def hidden : String := "$\x7b.\x7d"

/-- The text of a node once a variable has another name. -/
def renamedText (p q : String) (k : Kind) (x : String) (used : Bool) : String :=
  if k = .identifier then if x = p then q else x
  else if used then hidden else x

/-- Whether a tree is a member of an object that is named like the variable that is its value. -/
def isShorthand (name : String) (t : Tree) : Bool := t.kind = .shorthandProperty && t.text = name

mutual

/-- The tree with the variable `p` called `q`. -/
def rename (p q : String) : Tree → Tree
  | .node k l x n ts =>
    if k = .shorthandProperty && x = p then
      .node .pair l hidden n
        [.node .propertyIdentifier .key p n [], .node .identifier .value q n []]
    else .node k l (renamedText p q k x (usesAny p k ts)) n (renameAll p q k ts)

/-- The children of a tree with the variable `p` called `q`. -/
def renameAll (p q : String) (parent : Kind) : List Tree → List Tree
  | [] => []
  | t :: ts => (if isName parent t then t else rename p q t) :: renameAll p q parent ts

end

/-- A child of a tree of some kind with the variable `p` called `q`. -/
def renameIn (p q : String) (parent : Kind) (t : Tree) : Tree :=
  if isName parent t then t else rename p q t

section rename
variable {p q : String} {t c : Tree} {parent : Kind}

theorem usesAny_eq_true {ts : List Tree} {name : String} : usesAny name parent ts = true ↔
    ∃ c ∈ ts, isName parent c = false ∧ c.uses name = true := by
  induction ts with
  | nil => simp [usesAny]
  | cons t ts ih => simp [usesAny, ih]

theorem uses_of_mem {name : String} (hc : c ∈ t.children) (hn : isName t.kind c = false)
    (h : t.uses name = false) : c.uses name = false := by
  cases t with
  | node k l x n ts =>
      rw [uses, Bool.or_eq_false_iff] at h
      rw [← Bool.not_eq_true]
      exact fun hu => Bool.false_ne_true (h.2.symm.trans (usesAny_eq_true.mpr ⟨c, hc, hn, hu⟩))

theorem renameAll_eq (p q : String) (parent : Kind) (ts : List Tree) :
    renameAll p q parent ts = ts.map (renameIn p q parent) := by
  induction ts with
  | nil => rw [renameAll, List.map_nil]
  | cons t ts ih => rw [renameAll, List.map_cons, ih, renameIn]

theorem rename_eq (h : t.isShorthand p = false) : t.rename p q =
    .node t.kind t.label (renamedText p q t.kind t.text (usesAny p t.kind t.children)) t.line
      (t.children.map (renameIn p q t.kind)) := by
  cases t with
  | node k l x n ts =>
      have hne : (decide (k = Kind.shorthandProperty) && decide (x = p)) = false := h
      rw [rename, hne, if_neg Bool.false_ne_true, renameAll_eq]
      rfl

theorem rename_of_isShorthand (h : t.isShorthand p = true) : t.rename p q =
    .node .pair t.label hidden t.line
      [.node .propertyIdentifier .key p t.line [], .node .identifier .value q t.line []] := by
  cases t with
  | node k l x n ts =>
      have hyes : (decide (k = Kind.shorthandProperty) && decide (x = p)) = true := h
      rw [rename, hyes, if_pos rfl]
      rfl

/-- A tree in which the variable does not stand stays as it is. -/
theorem rename_eq_self (h : t.uses p = false) : t.rename p q = t := by
  induction t using induct with
  | node k l x n ts ih =>
      have hall := h
      rw [uses, Bool.or_eq_false_iff] at hall
      obtain ⟨hself, hany⟩ := hall
      have hshort : (node k l x n ts).isShorthand p = false := by
        simp only [isShorthand, kind, text, Bool.and_eq_false_iff] at hself ⊢
        simp only [Bool.or_eq_false_iff] at hself
        exact hself.imp_left And.right
      have htext : renamedText p q k x false = x := by
        unfold renamedText
        split
        · rename_i hk
          simp only [hk, decide_true, Bool.true_or, Bool.true_and, decide_eq_false_iff_not] at hself
          exact if_neg hself
        · exact if_neg Bool.false_ne_true
      have hchildren : ts.map (renameIn p q k) = ts := by
        refine List.map_congr_left (g := id) (fun c hc => ?_) |>.trans (List.map_id ts)
        unfold renameIn
        cases hn : isName k c with
        | true => rfl
        | false => exact ih c hc (uses_of_mem (t := node k l x n ts) hc hn h)
      rw [rename_eq hshort]
      simp only [kind, label, text, line, children, hany, htext, hchildren]

theorem renameIn_eq_self (h : isName parent t = true ∨ t.uses p = false) :
    renameIn p q parent t = t := by
  unfold renameIn
  split
  · rfl
  · exact rename_eq_self (h.resolve_left ‹_›)

theorem renameIn_of_not_isName (h : isName parent t = false) :
    renameIn p q parent t = t.rename p q := by
  rw [renameIn, h, if_neg Bool.false_ne_true]

@[simp] theorem label_rename : (t.rename p q).label = t.label := by
  cases h : t.isShorthand p with
  | true => rw [rename_of_isShorthand h, label]
  | false => rw [rename_eq h, label]

@[simp] theorem line_rename : (t.rename p q).line = t.line := by
  cases h : t.isShorthand p with
  | true => rw [rename_of_isShorthand h, line]
  | false => rw [rename_eq h, line]

theorem kind_of_isShorthand (h : t.isShorthand p = true) : t.kind = .shorthandProperty := by
  simp only [isShorthand, Bool.and_eq_true, decide_eq_true_eq] at h
  exact h.1

theorem isShorthand_eq_false (h : t.kind ≠ .shorthandProperty) : t.isShorthand p = false := by
  simp [isShorthand, h]

theorem kind_rename (h : t.isShorthand p = false) : (t.rename p q).kind = t.kind := by
  rw [rename_eq h, kind]

@[simp] theorem label_renameIn : (renameIn p q parent t).label = t.label := by
  unfold renameIn
  split
  · rfl
  · exact label_rename

/-- The kind stays, but for members named like a variable. -/
theorem kind_rename_eq_iff {k : Kind} (hs : k ≠ .shorthandProperty) (hp : k ≠ .pair) :
    (t.rename p q).kind = k ↔ t.kind = k := by
  cases h : t.isShorthand p with
  | true =>
      rw [rename_of_isShorthand h, kind, kind_of_isShorthand h]
      exact ⟨fun e => absurd e.symm hp, fun e => absurd e.symm hs⟩
  | false => rw [kind_rename h]

theorem kind_renameIn_eq_iff {k : Kind} (hs : k ≠ .shorthandProperty) (hp : k ≠ .pair) :
    (renameIn p q parent t).kind = k ↔ t.kind = k := by
  unfold renameIn
  split
  · exact Iff.rfl
  · exact kind_rename_eq_iff hs hp

theorem children_rename (h : t.isShorthand p = false) :
    (t.rename p q).children = t.children.map (renameIn p q t.kind) := by
  rw [rename_eq h, children]

theorem part?_rename (h : t.isShorthand p = false) (l : Label) :
    (t.rename p q).part? l = (t.part? l).map (renameIn p q t.kind) := by
  unfold part?
  rw [children_rename h, List.find?_map]
  simp only [Function.comp_def, label_renameIn]

theorem parts_rename (h : t.isShorthand p = false) :
    (t.rename p q).parts = t.parts.map (renameIn p q t.kind) := by
  unfold parts
  rw [children_rename h, List.filter_map]
  refine congrArg _ (List.filter_congr fun c _ => decide_eq_decide.mpr ?_)
  exact not_congr (kind_renameIn_eq_iff (by decide) (by decide))

theorem content?_rename (h : t.isShorthand p = false) :
    (t.rename p q).content? = (t.content?).map (renameIn p q t.kind) := by
  unfold content?
  rw [parts_rename h, List.find?_map]
  refine congrArg _ (congrArg (List.find? · t.parts) (funext fun c => decide_eq_decide.mpr ?_))
  exact not_congr (kind_renameIn_eq_iff (by decide) (by decide))

end rename

/-! ### What is read as a name or a literal -/

/-- Kinds of nodes without parts whose texts are read. -/
def tokens : List Kind :=
  [.identifier, .shorthandProperty, .string, .markupText, .shorthandPattern]

/-- The parts of a node of some kind whose texts are read. -/
def readLabels : Kind → List Label
  | .memberExpression => [.property]
  | .unaryExpression | .binaryExpression => [.operator]
  | .pairPattern => [.key]
  | .objectAssignmentPattern => [.left]
  | _ => []

/-- Kinds of nodes that tell something of a body. -/
def tellingKinds : List Kind :=
  [.memberExpression, .variableDeclarator, .element, .selfClosingElement]

/-- Whether a variable stands in a child of a tree of some kind, and not only as a name in markup. -/
def varies (name : String) (parent : Kind) (t : Tree) : Bool := !isName parent t && t.uses name

/-- Whether what is read of a node as a name or a literal does not depend on a variable. -/
@[mk_iff]
structure NamesApart (name : String) (t : Tree) : Prop where
  /-- Names and literals have no parts. -/
  token : tokens.contains t.kind = true → t.children = []
  /-- The variable does not stand in names of members, operators and keys of patterns. -/
  read : ∀ c ∈ t.children, (readLabels t.kind).contains c.label = true → c.uses name = false
  /-- Opening tags are tags. -/
  openTag : ∀ c ∈ t.children, c.label = .openTag → c.kind = .openingElement
  /-- A tag that is named by the variable is a member of it. -/
  tagName : isTag t.kind = true → ∀ c ∈ t.children, c.label = .name →
    varies name t.kind c = true → Text.contains c.text "." = true
  /-- The variable does not stand in the names of attributes. -/
  attributeName : t.kind = .attribute → ∀ c ∈ t.parts.head?.toList ++ t.content?.toList,
    varies name t.kind c = false
  /-- A template in which the variable stands is computed. -/
  template : t.kind = .templateString → t.uses name = true → AttributeValue.isComputed t = true
  /-- Names in markup tell nothing of the body. -/
  names : ∀ c ∈ t.children, isName t.kind c = true → ∀ d ∈ c.descendants,
    tellingKinds.contains d.kind = false

instance (name : String) : DecidablePred (NamesApart name) :=
  fun t => decidable_of_iff' _ (namesApart_iff name t)

/-- Whether this holds everywhere in a tree. -/
def Apart (name : String) (t : Tree) : Prop := t.Each (NamesApart name)

instance (name : String) (t : Tree) : Decidable (Apart name t) :=
  inferInstanceAs (Decidable (t.Each (NamesApart name)))

/-- Whether a new name of a variable does not stand in a tree. -/
def Fresh (p q : String) (t : Tree) : Prop := p = q ∨ t.uses q = false

section apart
variable {p q : String} {t c d : Tree}

theorem Apart.self (h : t.Apart p) : t.NamesApart p := Each.self h

theorem Apart.of_mem (h : t.Apart p) (hc : c ∈ t.children) : c.Apart p := Each.of_mem h hc

theorem Apart.of_mem_parts (h : t.Apart p) (hc : c ∈ t.parts) : c.Apart p := Each.of_mem_parts h hc

theorem Apart.of_part? {l : Label} (h : t.Apart p) (hc : t.part? l = some c) : c.Apart p :=
  Each.of_part? h hc

theorem Fresh.of_mem (h : Fresh p q t) (hc : c ∈ t.children) (hn : isName t.kind c = false) :
    Fresh p q c :=
  h.imp_right (uses_of_mem hc hn)

theorem isName_eq_false {parent : Kind} (ht : isTag parent = false) (ha : parent ≠ .attribute) :
    isName parent c = false := by
  simp [isName, ht, ha]

/-- A literal stays as it is. -/
theorem NamesApart.rename_token (h : t.NamesApart p) (hk : tokens.contains t.kind = true)
    (hi : t.kind ≠ .identifier) (hs : t.kind ≠ .shorthandProperty) : t.rename p q = t := by
  have hchildren := h.token hk
  refine rename_eq_self ?_
  cases t with
  | node k l x n ts =>
      have hts : ts = [] := hchildren
      have hk' : (decide (k = Kind.identifier) || decide (k = Kind.shorthandProperty)) = false := by
        rw [decide_eq_false (show k ≠ .identifier from hi),
          decide_eq_false (show k ≠ .shorthandProperty from hs), Bool.or_self]
      rw [uses, hk', Bool.false_and, Bool.false_or, hts, usesAny]

/-- The text of a part whose text is read stays. -/
theorem NamesApart.part?_read (h : t.NamesApart p) {l : Label}
    (hl : (readLabels t.kind).contains l = true) (hs : t.isShorthand p = false) :
    (t.rename p q).part? l = t.part? l := by
  rw [part?_rename hs]
  cases hc : t.part? l with
  | none => rfl
  | some c =>
      obtain ⟨hmem, rfl⟩ := mem_children_of_part? hc
      rw [Option.map_some, renameIn_eq_self (.inr (h.read c hmem hl))]

theorem text_rename_of_identifier (hk : t.kind = .identifier) :
    (t.rename p q).text = if t.text = p then q else t.text := by
  rw [rename_eq (isShorthand_eq_false (by simp [hk])), text, renamedText, if_pos hk]

/-- A variable with another name is that variable. -/
theorem isVariable_rename (h : Fresh p q t) :
    Mention.isVariable q (t.rename p q) = Mention.isVariable p t := by
  unfold Mention.isVariable
  by_cases hk : t.kind = .identifier
  · rw [kind_rename (isShorthand_eq_false (by simp [hk])), text_rename_of_identifier hk, hk]
    by_cases hp : t.text = p
    · simp [hp]
    · have hq : t.text ≠ q := by
        rcases h with rfl | h
        · exact hp
        · cases t with
          | node k l x n ts =>
              rw [uses, Bool.or_eq_false_iff] at h
              have hk' : k = .identifier := hk
              simpa [hk', text] using h.1
      simp [hp, hq]
  · have hk' : (t.rename p q).kind ≠ .identifier :=
      fun h => hk ((kind_rename_eq_iff (by decide) (by decide)).mp h)
    rw [decide_eq_false hk, decide_eq_false hk', Bool.false_and, Bool.false_and]

/-- Any other variable stays. -/
theorem isVariable_rename_of_ne {name : String} (hp : p ≠ name) (hq : q ≠ name) :
    Mention.isVariable name (t.rename p q) = Mention.isVariable name t := by
  unfold Mention.isVariable
  by_cases hk : t.kind = .identifier
  · rw [kind_rename (isShorthand_eq_false (by simp [hk])), text_rename_of_identifier hk, hk]
    by_cases ht : t.text = p
    · rw [if_pos ht, ht, decide_eq_false hp, decide_eq_false hq]
    · rw [if_neg ht]
  · have hk' : (t.rename p q).kind ≠ .identifier :=
      mt (kind_rename_eq_iff (by decide) (by decide)).mp hk
    rw [decide_eq_false hk, decide_eq_false hk', Bool.false_and, Bool.false_and]

end apart

end Tree

/-! ### Members of the variable -/

namespace Mention

variable {p q : String} {t e : Tree}

theorem ofEntry?_rename (h : e.NamesApart p) : ofEntry? (e.rename p q) = ofEntry? e := by
  unfold ofEntry?
  cases hs : e.isShorthand p with
  | true =>
      rw [Tree.rename_of_isShorthand hs, Tree.kind_of_isShorthand hs]
      rfl
  | false =>
      rw [Tree.kind_rename hs]
      split
      · rename_i hk
        rw [h.rename_token (by rw [hk]; decide) (by rw [hk]; decide) (by rw [hk]; decide)]
      · rename_i hk
        rw [h.part?_read (by rw [hk]; decide) hs]
      · rename_i hk
        have hvalue : ((e.rename p q).part? .value).any (·.kind = .assignmentPattern) =
            (e.part? .value).any (·.kind = .assignmentPattern) := by
          rw [Tree.part?_rename hs, Option.any_map]
          refine congrArg (Option.any · _) (funext fun c => decide_eq_decide.mpr ?_)
          exact Tree.kind_renameIn_eq_iff (by decide) (by decide)
        rw [h.part?_read (by rw [hk]; decide) hs, hvalue]
      · rfl

theorem ofPattern_rename (h : t.Apart p) (hk : t.kind = .objectPattern) :
    ofPattern (t.rename p q) = ofPattern t := by
  have hs : t.isShorthand p = false := Tree.isShorthand_eq_false (by simp [hk])
  unfold ofPattern
  rw [Tree.parts_rename hs, List.filterMap_map]
  refine List.filterMap_congr fun c hc => ?_
  rw [Function.comp_apply, Tree.renameIn_of_not_isName
    (Tree.isName_eq_false (by rw [hk]; decide) (by rw [hk]; decide))]
  exact ofEntry?_rename (h.of_mem_parts hc).self

/-- What a place of a body says of the variable stays. -/
theorem ofUse_rename (h : t.Apart p) (hf : t.Fresh p q) (hs : t.isShorthand p = false) :
    ofUse q (t.rename p q) = ofUse p t := by
  have hvariable {l : Label} {c : Tree} (hc : t.part? l = some c)
      (hn : Tree.isName t.kind c = false) :
      isVariable q (Tree.renameIn p q t.kind c) = isVariable p c := by
    rw [Tree.renameIn_of_not_isName hn]
    exact Tree.isVariable_rename (hf.of_mem (Tree.mem_children_of_part? hc).1 hn)
  unfold ofUse
  rw [Tree.kind_rename hs]
  split
  · rename_i hk
    have hname (c : Tree) : Tree.isName t.kind c = false :=
      Tree.isName_eq_false (by rw [hk]; decide) (by rw [hk]; decide)
    rw [h.self.part?_read (l := .property) (by rw [hk]; decide) hs, Tree.part?_rename hs]
    cases ho : t.part? .object with
    | none => rfl
    | some o =>
        cases t.part? .property with
        | none => rfl
        | some x =>
            dsimp only [Option.map_some]
            rw [hvariable ho (hname o)]
  · rename_i hk
    have hname (c : Tree) : Tree.isName t.kind c = false :=
      Tree.isName_eq_false (by rw [hk]; decide) (by rw [hk]; decide)
    rw [Tree.part?_rename hs, Tree.part?_rename hs]
    cases hv : t.part? .value with
    | none => rfl
    | some v =>
        cases hn : t.part? .name with
        | none => rfl
        | some n =>
            dsimp only [Option.map_some]
            rw [hvariable hv (hname v), Tree.renameIn_of_not_isName (hname n)]
            by_cases hpattern : n.kind = .objectPattern
            · have hmem := (Tree.mem_children_of_part? hn).1
              have hkind : (n.rename p q).kind = .objectPattern :=
                (Tree.kind_rename_eq_iff (by decide) (by decide)).mpr hpattern
              rw [ofPattern_rename (h.of_part? hn) hpattern, hpattern, hkind]
            · have hkind : (n.rename p q).kind ≠ .objectPattern :=
                mt (Tree.kind_rename_eq_iff (by decide) (by decide)).mp hpattern
              rw [decide_eq_false hpattern, decide_eq_false hkind, Bool.and_false, if_neg Bool.false_ne_true,
                if_neg Bool.false_ne_true]
  · rfl

end Mention

namespace Tree

variable {p q : String} {t : Tree}

/-- What is gathered from everything in a tree stays if it stays for every node, and for the nodes
that stand for a variable and its name. -/
theorem flatMap_descendants_rename {β : Type} {f g : Tree → List β}
    (hnode : ∀ d : Tree, d.Apart p → d.Fresh p q → d.isShorthand p = false →
      f (d.rename p q) = g d)
    (hshort : ∀ d : Tree, d.isShorthand p = true → (d.rename p q).descendants.flatMap f = g d)
    (hname : ∀ d : Tree, tellingKinds.contains d.kind = false → f d = g d)
    (t : Tree) (h : t.Apart p) (hf : t.Fresh p q) :
    (t.rename p q).descendants.flatMap f = t.descendants.flatMap g := by
  induction t using induct with
  | node k l x n ts ih =>
      cases hs : (node k l x n ts).isShorthand p with
      | true =>
          have hchildren : (node k l x n ts).children = [] :=
            h.self.token (by rw [kind_of_isShorthand hs]; decide)
          rw [hshort _ hs, descendants_eq, hchildren, List.flatMap_nil, List.flatMap_singleton]
      | false =>
          rw [descendants_eq, descendants_eq, List.flatMap_cons, List.flatMap_cons, hnode _ h hf hs,
            children_rename hs, List.flatMap_map, List.flatMap_assoc, List.flatMap_assoc]
          refine congrArg _ (List.flatMap_congr fun c hc => ?_)
          have hmark : (renameIn p q (node k l x n ts).kind c).kind = .mark ↔ c.kind = .mark :=
            kind_renameIn_eq_iff (by decide) (by decide)
          by_cases hm : c.kind = .mark
          · rw [if_pos (hmark.mpr hm), if_pos hm, List.flatMap_nil, List.flatMap_nil]
          · rw [if_neg (mt hmark.mp hm), if_neg hm]
            cases hn : isName (node k l x n ts).kind c with
            | true =>
                rw [renameIn_eq_self (.inl hn)]
                exact List.flatMap_congr fun d hd => hname d (h.self.names c hc hn d hd)
            | false =>
                rw [renameIn_of_not_isName hn]
                exact ih c hc (h.of_mem hc) (hf.of_mem hc hn)

end Tree

/-- What a body says of the variable stays. -/
theorem Mention.ofBody_rename {p q : String} {t : Tree} (h : t.Apart p) (hf : t.Fresh p q) :
    ofBody q (t.rename p q) = ofBody p t := by
  have hnone {name : String} {d : Tree} (hd : Tree.tellingKinds.contains d.kind = false) :
      ofUse name d = [] := by
    unfold ofUse
    split
    · rename_i hk
      rw [hk] at hd
      cases hd
    · rename_i hk
      rw [hk] at hd
      cases hd
    · rfl
  refine Tree.flatMap_descendants_rename (fun d hd hfd hs => ofUse_rename hd hfd hs)
    (fun d hs => ?_) (fun d hd => by rw [hnone hd, hnone hd]) t h hf
  have hself : ofUse p d = [] := hnone (by rw [Tree.kind_of_isShorthand hs]; decide)
  rw [Tree.rename_of_isShorthand hs, hself]
  rfl

/-! ### Conditions and handlers -/

/-- Whether the names of a variable are not those by which props are recognised. -/
@[mk_iff]
structure ClearNames (p q : String) (props : List String) : Prop where
  /-- They are not the name that is taken for that of the props. -/
  ne_props : p ≠ "props" ∧ q ≠ "props"
  /-- They are no names of props. -/
  notMem : p ∉ props ∧ q ∉ props

instance (p q : String) (props : List String) : Decidable (ClearNames p q props) :=
  decidable_of_iff' _ (clearNames_iff p q props)

namespace Mentions

variable {p q : String} {props : List String} {t : Tree}

/-- A prop is mentioned by the same name, or the variable is. -/
theorem nameOf?_rename (hc : ClearNames p q props) (h : t.NamesApart p)
    (hs : t.isShorthand p = false) : nameOf? (t.rename p q) = nameOf? t ∨
      nameOf? t = some p ∧ nameOf? (t.rename p q) = some q := by
  unfold nameOf?
  rw [Tree.kind_rename hs]
  split
  · rename_i hk
    rw [Tree.text_rename_of_identifier hk]
    by_cases hp : t.text = p
    · exact .inr ⟨by rw [hp], by rw [if_pos hp]⟩
    · exact .inl (by rw [if_neg hp])
  · rename_i hk
    refine .inl ?_
    rw [h.part?_read (l := .property) (by rw [hk]; decide) hs, Tree.part?_rename hs]
    cases t.part? .object with
    | none => rfl
    | some o =>
        cases t.part? .property with
        | none => rfl
        | some x =>
            have hname : Tree.isName t.kind o = false :=
              Tree.isName_eq_false (by rw [hk]; decide) (by rw [hk]; decide)
            have hobject : (decide ((o.rename p q).kind = .identifier) &&
                decide ((o.rename p q).text = "props")) =
                (decide (o.kind = .identifier) && decide (o.text = "props")) :=
              Tree.isVariable_rename_of_ne hc.ne_props.1 hc.ne_props.2
            dsimp only [Option.map_some]
            rw [Tree.renameIn_of_not_isName hname, hobject]
  · exact .inl rfl

theorem flips_rename (h : t.NamesApart p) (hs : t.isShorthand p = false) :
    flips (t.rename p q) = flips t := by
  unfold flips
  rw [Tree.kind_rename hs]
  by_cases hk : t.kind = .unaryExpression
  · rw [h.part?_read (by rw [hk]; decide) hs]
  · rw [decide_eq_false hk, Bool.false_and, Bool.false_and]

theorem ofEach_eq (negated : Bool) (ts : List Tree) : ofEach negated ts =
    ts.flatMap fun t => if t.kind = .mark then [] else all negated t := by
  induction ts with
  | nil => rw [ofEach, List.flatMap_nil]
  | cons t ts ih => rw [ofEach, List.flatMap_cons, ih]

theorem all_eq (negated : Bool) (t : Tree) : all negated t =
    match nameOf? t with
    | some name => [(name, negated)]
    | none => t.children.flatMap fun c =>
        if c.kind = .mark then [] else all (negated != flips t) c := by
  cases t
  rw [all, ofEach_eq]
  rfl

/-- The props in a condition stay if the names of the variable are clear. -/
theorem filter_all_rename (hc : ClearNames p q props) (h : t.Apart p) (negated : Bool) :
    (all negated (t.rename p q)).filter (fun e => props.contains e.1) =
      (all negated t).filter fun e => props.contains e.1 := by
  induction t using Tree.induct generalizing negated with
  | node k l x n ts ih =>
      cases hs : (Tree.node k l x n ts).isShorthand p with
      | true =>
          have hchildren : (Tree.node k l x n ts).children = [] :=
            h.self.token (by rw [Tree.kind_of_isShorthand hs]; decide)
          have hname : nameOf? (Tree.node k l x n ts) = none := by
            rw [nameOf?, Tree.kind_of_isShorthand hs]
          rw [Tree.rename_of_isShorthand hs, all_eq _ (Tree.node k l x n ts), hname, hchildren]
          simp [all, ofEach, nameOf?, Tree.kind, Tree.text, hc.notMem.2]
      | false =>
          rcases nameOf?_rename (q := q) hc h.self hs with hname | ⟨hname, hname'⟩
          · rw [all_eq, all_eq, hname]
            cases nameOf? (Tree.node k l x n ts) with
            | some name => rfl
            | none =>
                dsimp only
                rw [flips_rename h.self hs, Tree.children_rename hs, List.flatMap_map,
                  List.filter_flatMap, List.filter_flatMap]
                refine List.flatMap_congr fun c hmem => ?_
                have hmark : (Tree.renameIn p q (Tree.node k l x n ts).kind c).kind = .mark ↔
                    c.kind = .mark := Tree.kind_renameIn_eq_iff (by decide) (by decide)
                by_cases hm : c.kind = .mark
                · rw [if_pos (hmark.mpr hm), if_pos hm]
                · rw [if_neg (mt hmark.mp hm), if_neg hm]
                  cases hn : Tree.isName (Tree.node k l x n ts).kind c with
                  | true => rw [Tree.renameIn_eq_self (.inl hn)]
                  | false =>
                      rw [Tree.renameIn_of_not_isName hn]
                      exact ih c hmem (h.of_mem hmem) _
          · rw [all_eq, all_eq, hname, hname']
            simp [hc.notMem.1, hc.notMem.2]

/-- The props in a condition stay. -/
theorem ofCondition_rename (hc : ClearNames p q props) (h : t.Apart p) :
    ofCondition props (t.rename p q) = ofCondition props t := by
  rw [ofCondition, filter_all_rename hc h, ofCondition]

end Mentions

end Trellis
