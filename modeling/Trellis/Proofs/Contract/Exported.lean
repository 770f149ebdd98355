import Trellis.Proofs.Contract.Components
import Trellis.Proofs.Contract.Positions

/-! # Exported components

Which functions of a module are its components, and how they leave it.

* `Tree.DeclaresFunction` says what functions a statement declares under which names, and
  `Tree.Exports` what it exports of the module's own. `Source.Declares` and `Source.Exports` say so
  of a source, with the positions at which it is done.
* `Candidate.enumerates_ofSource` and `Export.enumerates_ofSource`: an analysis finds just these, in
  the order of the source.
* `Source.Reports` says that some components are the exported functions that hold markup, in the order
  of their declarations, and how each of them is exported. `Analysis.reports`: this is what an analysis
  reports of a source with at most one default export. -/

namespace Trellis

open Syntax

/-! ### Declarations and exports of a statement -/

namespace Tree

/-- Whether a statement exports something of the module's own. -/
def IsOwnExport (s : Tree) : Prop := s.kind = .exportStatement ∧ s.part? .source = none

/-- What a statement declares: it may be the declaration, or export it. -/
inductive DeclarationOf (s : Tree) : Tree → Prop
  /-- The statement is a declaration. -/
  | bare : s.kind ≠ .exportStatement → DeclarationOf s s
  /-- The statement exports a declaration. -/
  | exported {d : Tree} : s.IsOwnExport → s.part? .declaration = some d → DeclarationOf s d

/-- Whether a declarator names a variable. -/
def NamesVariable (v : Tree) (name : String) : Prop :=
  v.kind = .variableDeclarator ∧
    ∃ n, v.part? .name = some n ∧ n.kind = .identifier ∧ n.text = name

/-- Whether a tree declares variables. -/
def IsVariables (d : Tree) : Prop := d.kind = .lexicalDeclaration ∨ d.kind = .variableDeclaration

/-- The functions that a statement declares, with their positions in it and their names. -/
inductive DeclaresFunction (s : Tree) : Tree.Place → String → Tree → Prop
  /-- A function declaration. -/
  | declaration {d n : Tree} : s.DeclarationOf d → d.kind = .functionDeclaration →
      d.part? .name = some n → DeclaresFunction s [] n.text d
  /-- A variable whose value is a function. -/
  | declarator {d v f : Tree} {k : Nat} {name : String} : s.DeclarationOf d → d.IsVariables →
      d.parts[k]? = some v → v.NamesVariable name → v.part? .value = some f →
      f.kind = .arrowFunction ∨ f.kind = .functionExpression → DeclaresFunction s [k] name f

/-- The name under which a name in braces is exported. -/
def aliasOf (x n : Tree) : String := (x.part? .alias).elim n.text Tree.text

/-- The exports of a statement, with their positions in it. -/
inductive Exports (s : Tree) : Tree.Place → Export → Prop
  /-- A function is exported where it is declared. -/
  | declaration {d n : Tree} : s.IsOwnExport → s.part? .declaration = some d →
      d.kind = .functionDeclaration → d.part? .name = some n → s.hasMark "default" = false →
      Exports s [] (.named n.text n.text)
  /-- A function is the default where it is declared. -/
  | defaultDeclaration {d n : Tree} : s.IsOwnExport → s.part? .declaration = some d →
      d.kind = .functionDeclaration → d.part? .name = some n → s.hasMark "default" = true →
      Exports s [] (.default n.text)
  /-- A variable is exported where it is declared. -/
  | declarator {d v : Tree} {k : Nat} {name : String} : s.IsOwnExport →
      s.part? .declaration = some d → d.IsVariables → d.parts[k]? = some v →
      v.NamesVariable name → Exports s [k] (.named name name)
  /-- A name is the default. -/
  | value {v : Tree} : s.IsOwnExport → s.part? .declaration = none → s.part? .value = some v →
      s.hasMark "default" = true → v.kind = .identifier → Exports s [] (.default v.text)
  /-- A name is exported in braces. -/
  | specifier {c x n : Tree} {j k : Nat} : s.IsOwnExport → s.part? .declaration = none →
      s.part? .value = none → s.parts[j]? = some c → c.kind = .exportClause →
      c.parts[k]? = some x → x.kind = .exportSpecifier → x.part? .name = some n →
      aliasOf x n ≠ "default" → Exports s [j, k] (.named n.text (aliasOf x n))
  /-- A name is exported as the default in braces. -/
  | defaultSpecifier {c x n : Tree} {j k : Nat} : s.IsOwnExport → s.part? .declaration = none →
      s.part? .value = none → s.parts[j]? = some c → c.kind = .exportClause →
      c.parts[k]? = some x → x.kind = .exportSpecifier → x.part? .name = some n →
      aliasOf x n = "default" → Exports s [j, k] (.default n.text)

end Tree

/-! ### Declarations and exports of a source -/

namespace Source

/-- Whether a function is declared at the top level of a source, at a position and under a name. -/
def Declares (s : Source) (p : Tree.Place) (name : String) (f : Tree) : Prop :=
  ∃ i q t, p = i :: q ∧ s.statements[i]? = some t ∧ t.DeclaresFunction q name f

/-- Whether a source exports something of its own at a position. -/
def Exports (s : Source) (p : Tree.Place) (e : Export) : Prop :=
  ∃ i q t, p = i :: q ∧ s.statements[i]? = some t ∧ t.Exports q e

/-- Whether a source exports a name. -/
def IsExported (s : Source) (name : String) : Prop :=
  ∃ p, s.Exports p (.default name) ∨ ∃ exported, s.Exports p (.named name exported)

/-- Whether a source has at most one default export. -/
def HasOneDefault (s : Source) : Prop :=
  ∀ p q m n, s.Exports p (.default m) → s.Exports q (.default n) → p = q

end Source

/-- Whether a name begins with a capital letter of ASCII. -/
def StartsUpper (name : String) : Prop :=
  ∃ c rest, name.toList = c :: rest ∧ 'A' ≤ c ∧ c ≤ 'Z'

/-- Whether the body of a function holds an element. -/
def Tree.HoldsMarkup (f : Tree) : Prop :=
  ∃ body q e, f.part? .body = some body ∧ body.at? q = some e ∧ Enclosure.isElement e = true

/-- How some components are those of a source. -/
structure Source.Reports (s : Source) (cs : List Component) : Prop where
  /-- The components are the functions at the top level with a capitalised name that hold markup and
  are exported, in the order of their declarations. -/
  reported : Enumerates (fun p name => ∃ f, s.Declares p name f ∧ StartsUpper name ∧
    f.HoldsMarkup ∧ s.IsExported name) (cs.map (·.name))
  /-- A component counts as the default export if it is. -/
  isDefault : ∀ c ∈ cs, c.exportKind = .default ↔ ∃ p, s.Exports p (.default c.name)
  /-- Any other is known by the first name under which it is exported. -/
  exportedAs : ∀ c ∈ cs, c.exportKind = .named →
    ∃ p, s.Exports p (.named c.name c.exportedAs) ∧
      ∀ q exported, s.Exports q (.named c.name exported) → ¬ q < p

/-! ### Candidates -/

namespace Candidate

theorem isUpper_iff {c : Char} : c.isUpper = true ↔ 'A' ≤ c ∧ c ≤ 'Z' :=
  decide_eq_true_iff

theorem isComponentName_iff {name : String} : isComponentName name = true ↔ StartsUpper name := by
  unfold isComponentName StartsUpper
  cases name.toList with
  | nil => simp
  | cons c rest =>
      rw [List.head?_cons, Option.map_some, Option.getD_some, isUpper_iff]
      constructor
      · exact fun h => ⟨c, rest, rfl, h⟩
      · rintro ⟨_, _, heq, h⟩
        cases heq
        exact h

theorem declarationOf?_eq_some_iff {t d : Tree} :
    declarationOf? t = some d ↔ t.DeclarationOf d := by
  unfold declarationOf?
  constructor
  · intro h
    split at h
    · next hk =>
      split at h
      · cases h
      · next hs => exact .exported ⟨hk, by simpa using hs⟩ h
    · next hk =>
      cases h
      exact .bare hk
  · rintro (hk | ⟨⟨hk, hs⟩, hd⟩)
    · rw [if_neg hk]
    · rw [if_pos hk, hs, if_neg (by decide), hd]

theorem declaredName?_eq_some_iff {v : Tree} {name : String} :
    declaredName? v = some name ↔ v.NamesVariable name := by
  unfold declaredName? Tree.NamesVariable
  split
  · next hk =>
    rw [Option.bind_eq_bind, Option.bind_eq_some_iff, and_iff_right hk]
    refine exists_congr fun n => and_congr_right fun _ => ?_
    split <;> simp [*]
  · next hk => simp [hk]

theorem isVariables_iff {d : Tree} : isVariables d = true ↔ d.IsVariables := by
  simp [isVariables, Tree.IsVariables]

theorem isFunction_iff {f : Tree} :
    isFunction f = true ↔ f.kind = .arrowFunction ∨ f.kind = .functionExpression := by
  simp [isFunction]

/-- The name and the function of a candidate. -/
def named (c : Candidate) : String × Tree := (c.name, c.function)

theorem named_ofFunction? {d : Tree} {x : String × Tree} : (ofFunction? d).map named = some x ↔
    (∃ n, d.part? .name = some n ∧ n.text = x.1) ∧ x.2 = d ∧ StartsUpper x.1 := by
  unfold ofFunction?
  simp only [Option.bind_eq_bind, Option.map_eq_some_iff, Option.bind_eq_some_iff]
  constructor
  · rintro ⟨c, ⟨n, hn, hc⟩, rfl⟩
    split at hc
    · next hname =>
      cases hc
      exact ⟨⟨n, hn, rfl⟩, rfl, isComponentName_iff.mp hname⟩
    · cases hc
  · obtain ⟨name, f⟩ := x
    rintro ⟨⟨n, hn, rfl⟩, rfl, hname⟩
    exact ⟨_, ⟨n, hn, if_pos (isComponentName_iff.mpr hname)⟩, rfl⟩

theorem named_ofDeclarator? {v : Tree} {x : String × Tree} : (ofDeclarator? v).map named = some x ↔
    v.NamesVariable x.1 ∧ v.part? .value = some x.2 ∧
      (x.2.kind = .arrowFunction ∨ x.2.kind = .functionExpression) ∧ StartsUpper x.1 := by
  unfold ofDeclarator?
  simp only [Option.bind_eq_bind, Option.map_eq_some_iff, Option.bind_eq_some_iff,
    declaredName?_eq_some_iff]
  constructor
  · rintro ⟨c, ⟨name, hname, f, hf, hc⟩, rfl⟩
    split at hc
    · next h =>
      cases hc
      obtain ⟨hfunction, hupper⟩ := Bool.and_eq_true_iff.mp h
      exact ⟨hname, hf, isFunction_iff.mp hfunction, isComponentName_iff.mp hupper⟩
    · cases hc
  · obtain ⟨name, f⟩ := x
    rintro ⟨hname, hf, hfunction, hupper⟩
    refine ⟨_, ⟨name, hname, f, hf, if_pos (Bool.and_eq_true_iff.mpr ?_)⟩, rfl⟩
    exact ⟨isFunction_iff.mpr hfunction, isComponentName_iff.mpr hupper⟩

/-- What a declaration by itself declares. -/
def declares (d : Tree) (q : Tree.Place) (name : String) (f : Tree) : Prop :=
  (d.kind = .functionDeclaration ∧ q = [] ∧ f = d ∧ ∃ n, d.part? .name = some n ∧ n.text = name) ∨
  (d.IsVariables ∧ ∃ k v, q = [k] ∧ d.parts[k]? = some v ∧ v.NamesVariable name ∧
    v.part? .value = some f ∧ (f.kind = .arrowFunction ∨ f.kind = .functionExpression))

theorem declaresFunction_iff {t d : Tree} (hd : t.DeclarationOf d) {q : Tree.Place} {name : String}
    {f : Tree} : t.DeclaresFunction q name f ↔ declares d q name f := by
  have heq {d' : Tree} (h : t.DeclarationOf d') : d' = d :=
    Option.some.inj ((declarationOf?_eq_some_iff.mpr h).symm.trans
      (declarationOf?_eq_some_iff.mpr hd))
  constructor
  · intro h
    cases h with
    | declaration h hk hn =>
        cases heq h
        exact .inl ⟨hk, rfl, rfl, _, hn, rfl⟩
    | declarator h hv hk hname hf hfunction =>
        cases heq h
        exact .inr ⟨hv, _, _, rfl, hk, hname, hf, hfunction⟩
  · rintro (⟨hk, rfl, rfl, n, hn, rfl⟩ | ⟨hv, k, v, rfl, hk, hname, hf, hfunction⟩)
    · exact .declaration hd hk hn
    · exact .declarator hd hv hk hname hf hfunction

/-- The candidates of a declaration are the capitalised functions in it. -/
theorem enumerates_ofDeclaration (d : Tree) :
    Enumerates (fun q x => declares d q x.1 x.2 ∧ StartsUpper x.1)
      ((ofDeclaration d).map named) := by
  have hexclusive (hk : d.kind = .functionDeclaration) : ¬ d.IsVariables := by
    rintro (h | h) <;> rw [hk] at h <;> cases h
  unfold ofDeclaration
  split
  · next hk =>
    rw [← Option.toList_map]
    refine (Enumerates.toList _).congr fun q x => ?_
    rw [named_ofFunction?, declares, or_iff_left fun h => hexclusive hk h.1]
    tauto
  · next hk =>
    split
    · next hv =>
      rw [List.map_filterMap]
      refine ((Enumerates.parts d.parts).filterMap _).congr fun q x => ?_
      simp only [named_ofDeclarator?, declares, isVariables_iff.mp hv, hk, false_and, false_or,
        true_and]
      constructor
      · rintro ⟨v, ⟨k, rfl, hv⟩, hname, hf, hfunction, hupper⟩
        exact ⟨⟨k, v, rfl, hv, hname, hf, hfunction⟩, hupper⟩
      · rintro ⟨⟨k, v, rfl, hv, hname, hf, hfunction⟩, hupper⟩
        exact ⟨v, ⟨k, rfl, hv⟩, hname, hf, hfunction, hupper⟩
    · next hv =>
      refine .nil fun q x h => ?_
      rcases h.1 with ⟨h, -⟩ | ⟨h, -⟩
      · exact hk h
      · exact hv (isVariables_iff.mpr h)

/-- A statement's candidates are the capitalised functions that it declares. -/
theorem enumerates_ofStatement (t : Tree) :
    Enumerates (fun q x => t.DeclaresFunction q x.1 x.2 ∧ StartsUpper x.1)
      ((((declarationOf? t).map ofDeclaration).getD []).map named) := by
  cases hd : declarationOf? t with
  | none =>
      refine .nil fun q ⟨name, f⟩ ⟨h, _⟩ => ?_
      have hnot {d : Tree} (h : t.DeclarationOf d) : False := by
        rw [declarationOf?_eq_some_iff.mpr h] at hd
        cases hd
      cases h with
      | declaration h _ _ => exact hnot h
      | declarator h _ _ _ _ _ => exact hnot h
  | some d =>
      rw [Option.map_some, Option.getD_some]
      exact (enumerates_ofDeclaration d).congr fun q x =>
        and_congr_left' (declaresFunction_iff (declarationOf?_eq_some_iff.mp hd)).symm

/-- The candidates of a source are the capitalised functions that it declares. -/
theorem enumerates_ofSource (s : Source) :
    Enumerates (fun p x => s.Declares p x.1 x.2 ∧ StartsUpper x.1) ((ofSource s).map named) := by
  rw [ofSource, List.map_flatMap]
  refine (Enumerates.flatMap fun t _ => enumerates_ofStatement t).congr fun p x => ⟨?_, ?_⟩
  · rintro ⟨i, q, t, rfl, ht, h, hupper⟩
    exact ⟨⟨i, q, t, rfl, ht, h⟩, hupper⟩
  · rintro ⟨⟨i, q, t, rfl, ht, h⟩, hupper⟩
    exact ⟨i, q, t, rfl, ht, h, hupper⟩

end Candidate

/-! ### Exports -/

namespace Export

theorem ofSpecifier?_eq_some_iff {x : Tree} {e : Export} : ofSpecifier? x = some e ↔
    x.kind = .exportSpecifier ∧ ∃ n, x.part? .name = some n ∧
      e = if x.aliasOf n = "default" then .default n.text else .named n.text (x.aliasOf n) := by
  unfold ofSpecifier?
  split
  · next hk =>
    rw [Option.bind_eq_bind, Option.bind_eq_some_iff, and_iff_right hk]
    refine exists_congr fun n => and_congr_right fun _ => ?_
    have halias : ((x.part? .alias).map Tree.text).getD n.text = x.aliasOf n := by
      rw [Tree.aliasOf]
      cases x.part? .alias <;> rfl
    dsimp only
    rw [halias, Option.pure_def, Option.some.injEq, eq_comm]
  · next hk => simp [hk]

/-- What the braces of a statement export. -/
theorem enumerates_specifiers (t : Tree) :
    Enumerates (fun q e => ∃ j c k x, q = [j, k] ∧ t.parts[j]? = some c ∧ c.kind = .exportClause ∧
        c.parts[k]? = some x ∧ ofSpecifier? x = some e)
      ((t.parts.filter (·.kind = .exportClause)).flatMap fun c => c.parts.filterMap ofSpecifier?) := by
  have hclause (c : Tree) : Enumerates
      (fun q e => c.kind = .exportClause ∧ ∃ k x, q = [k] ∧ c.parts[k]? = some x ∧
        ofSpecifier? x = some e)
      (if c.kind = .exportClause then c.parts.filterMap ofSpecifier? else []) := by
    split
    · next hk =>
      refine ((Enumerates.parts c.parts).filterMap _).congr fun q e => ?_
      rw [and_iff_right hk]
      constructor
      · rintro ⟨x, ⟨k, rfl, hx⟩, he⟩
        exact ⟨k, x, rfl, hx, he⟩
      · rintro ⟨k, x, rfl, hx, he⟩
        exact ⟨x, ⟨k, rfl, hx⟩, he⟩
    · next hk => exact .nil fun q e h => hk h.1
  have hfilter : (t.parts.filter (·.kind = .exportClause)).flatMap
        (fun c => c.parts.filterMap ofSpecifier?) =
      t.parts.flatMap fun c =>
        if c.kind = .exportClause then c.parts.filterMap ofSpecifier? else [] := by
    induction t.parts with
    | nil => rfl
    | cons c cs ih => by_cases hk : c.kind = .exportClause <;> simp [hk, ih]
  rw [hfilter]
  refine (Enumerates.flatMap fun c _ => hclause c).congr fun q e => ⟨?_, ?_⟩
  · rintro ⟨j, _, c, rfl, hc, hk, k, x, rfl, hx, he⟩
    exact ⟨j, c, k, x, rfl, hc, hk, hx, he⟩
  · rintro ⟨j, c, k, x, rfl, hc, hk, hx, he⟩
    exact ⟨j, [k], c, rfl, hc, hk, k, x, rfl, hx, he⟩

section statements
variable {t d v : Tree} {q : Tree.Place} {e : Export}

theorem isOwnExport_of_exports (h : t.Exports q e) : t.IsOwnExport := by
  cases h <;> assumption

/-- What an exported declaration exports. -/
theorem exports_declaration_iff (hown : t.IsOwnExport) (hd : t.part? .declaration = some d) :
    t.Exports q e ↔
      (d.kind = .functionDeclaration ∧ q = [] ∧ ∃ n, d.part? .name = some n ∧
        e = if t.hasMark "default" then .default n.text else .named n.text n.text) ∨
      (d.IsVariables ∧ ∃ k v name, q = [k] ∧ d.parts[k]? = some v ∧ v.NamesVariable name ∧
        e = .named name name) := by
  have hnone {α : Prop} (h : t.part? .declaration = none) : α := by rw [hd] at h; cases h
  constructor
  · intro h
    cases h with
    | declaration _ hd' hk hn hmark =>
        cases hd.symm.trans hd'
        exact .inl ⟨hk, rfl, _, hn, by rw [hmark]; rfl⟩
    | defaultDeclaration _ hd' hk hn hmark =>
        cases hd.symm.trans hd'
        exact .inl ⟨hk, rfl, _, hn, by rw [hmark]; rfl⟩
    | declarator _ hd' hv hk hname =>
        cases hd.symm.trans hd'
        exact .inr ⟨hv, _, _, _, rfl, hk, hname, rfl⟩
    | value _ h => exact hnone h
    | specifier _ h => exact hnone h
    | defaultSpecifier _ h => exact hnone h
  · rintro (⟨hk, rfl, n, hn, rfl⟩ | ⟨hv, k, v, name, rfl, hk, hname, rfl⟩)
    · cases hmark : t.hasMark "default" with
      | false => exact .declaration hown hd hk hn hmark
      | true => exact .defaultDeclaration hown hd hk hn hmark
    · exact .declarator hown hd hv hk hname

/-- What an exported value exports. -/
theorem exports_value_iff (hown : t.IsOwnExport) (hd : t.part? .declaration = none)
    (hv : t.part? .value = some v) :
    t.Exports q e ↔
      t.hasMark "default" = true ∧ v.kind = .identifier ∧ q = [] ∧ e = .default v.text := by
  have hnone {α : Prop} (h : t.part? .value = none) : α := by rw [hv] at h; cases h
  have hsome {α : Prop} {d : Tree} (h : t.part? .declaration = some d) : α := by
    rw [hd] at h
    cases h
  constructor
  · intro h
    cases h with
    | declaration _ h => exact hsome h
    | defaultDeclaration _ h => exact hsome h
    | declarator _ h => exact hsome h
    | value _ _ hv' hmark hk =>
        cases hv.symm.trans hv'
        exact ⟨hmark, hk, rfl, rfl⟩
    | specifier _ _ h => exact hnone h
    | defaultSpecifier _ _ h => exact hnone h
  · rintro ⟨hmark, hk, rfl, rfl⟩
    exact .value hown hd hv hmark hk

/-- What is exported in braces. -/
theorem exports_braces_iff (hown : t.IsOwnExport) (hd : t.part? .declaration = none)
    (hv : t.part? .value = none) :
    t.Exports q e ↔ ∃ j c k x, q = [j, k] ∧ t.parts[j]? = some c ∧ c.kind = .exportClause ∧
      c.parts[k]? = some x ∧ ofSpecifier? x = some e := by
  have hsome {α : Prop} {d : Tree} (h : t.part? .declaration = some d) : α := by
    rw [hd] at h
    cases h
  simp only [ofSpecifier?_eq_some_iff]
  constructor
  · intro h
    cases h with
    | declaration _ h => exact hsome h
    | defaultDeclaration _ h => exact hsome h
    | declarator _ h => exact hsome h
    | value _ _ h =>
        rw [hv] at h
        cases h
    | specifier _ _ _ hc hk hx hkx hn halias =>
        exact ⟨_, _, _, _, rfl, hc, hk, hx, hkx, _, hn, (if_neg halias).symm⟩
    | defaultSpecifier _ _ _ hc hk hx hkx hn halias =>
        exact ⟨_, _, _, _, rfl, hc, hk, hx, hkx, _, hn, (if_pos halias).symm⟩
  · rintro ⟨j, c, k, x, rfl, hc, hk, hx, hkx, n, hn, rfl⟩
    split
    · next halias => exact .defaultSpecifier hown hd hv hc hk hx hkx hn halias
    · next halias => exact .specifier hown hd hv hc hk hx hkx hn halias

/-- The exports of an exported declaration. -/
theorem enumerates_ofDeclaration (isDefault : Bool) (d : Tree) :
    Enumerates (fun q e =>
        (d.kind = .functionDeclaration ∧ q = [] ∧ ∃ n, d.part? .name = some n ∧
          e = if isDefault then .default n.text else .named n.text n.text) ∨
        (d.IsVariables ∧ ∃ k v name, q = [k] ∧ d.parts[k]? = some v ∧ v.NamesVariable name ∧
          e = .named name name))
      (ofDeclaration isDefault d) := by
  have hexclusive (hk : d.kind = .functionDeclaration) : ¬ d.IsVariables := by
    rintro (h | h) <;> rw [hk] at h <;> cases h
  unfold ofDeclaration
  by_cases hk : d.kind = .functionDeclaration
  · rw [if_pos hk]
    simp only [hk, hexclusive hk, true_and, false_and, or_false]
    cases hn : d.part? .name with
    | none => exact .nil fun q e ⟨_, n, h, _⟩ => by cases h
    | some n =>
        refine (Enumerates.singleton _).congr fun q e => and_congr_right fun _ => ?_
        simp only [Option.some.injEq, exists_eq_left']
  · rw [if_neg hk]
    simp only [hk, false_and, false_or]
    split
    · next hv =>
      rw [← List.filterMap_eq_map, List.filterMap_filterMap]
      refine ((Enumerates.parts d.parts).filterMap _).congr fun q e => ?_
      rw [and_iff_right (Candidate.isVariables_iff.mp hv)]
      simp only [Option.bind_eq_some_iff, Candidate.declaredName?_eq_some_iff, Option.some.injEq,
        Function.comp_apply]
      constructor
      · rintro ⟨v, ⟨k, rfl, hv⟩, name, hname, rfl⟩
        exact ⟨k, v, name, rfl, hv, hname, rfl⟩
      · rintro ⟨k, v, name, rfl, hv, hname, rfl⟩
        exact ⟨v, ⟨k, rfl, hv⟩, name, hname, rfl⟩
    · next hv => exact .nil fun q e h => hv (Candidate.isVariables_iff.mpr h.1)

/-- The exports of a statement are found. -/
theorem enumerates_ofStatement (t : Tree) : Enumerates t.Exports (ofStatement t) := by
  unfold ofStatement
  split
  · next hnot =>
    refine .nil fun q e h => ?_
    obtain ⟨hk, hs⟩ := isOwnExport_of_exports h
    simp [hk, hs] at hnot
  · next hnot =>
    have hown : t.IsOwnExport := by simpa [Tree.IsOwnExport] using hnot
    cases hd : t.part? .declaration with
    | some d =>
        exact (enumerates_ofDeclaration _ d).congr fun q e => (exports_declaration_iff hown hd).symm
    | none =>
        cases hv : t.part? .value with
        | none =>
            exact (enumerates_specifiers t).congr fun q e => (exports_braces_iff hown hd hv).symm
        | some v =>
            dsimp only
            split
            · next h =>
              obtain ⟨hmark, hk⟩ := Bool.and_eq_true_iff.mp h
              refine (Enumerates.singleton _).congr fun q e => ?_
              rw [exports_value_iff hown hd hv, and_iff_right hmark,
                and_iff_right (of_decide_eq_true hk)]
            · next h =>
              refine .nil fun q e he => h ?_
              obtain ⟨hmark, hk, -⟩ := (exports_value_iff hown hd hv).mp he
              rw [hmark, hk]
              rfl

end statements

/-- Whether an export is the default. -/
def isDefault : Export → Bool
  | .default _ => true
  | .named _ _ => false

/-- The exports of a source are found, in their order. -/
theorem enumerates_ofSource (s : Source) : Enumerates s.Exports (ofSource s) :=
  Enumerates.flatMap fun t _ => enumerates_ofStatement t

/-- A source with one default export at most among those that are found. -/
theorem hasOneDefault_of_length {s : Source}
    (h : ((ofSource s).filter isDefault).length ≤ 1) : s.HasOneDefault :=
  fun _ _ _ _ hp hq => (enumerates_ofSource s).position_eq h hp rfl hq rfl

/-! ### How a name leaves a source -/

section lookup
variable {s : Source} {name exported : String} {kind : ExportKind}

/-- The default export of a source that has one is what it stands for. -/
theorem default?_eq_some_iff (h : s.HasOneDefault) :
    default? (ofSource s) = some name ↔ ∃ p, s.Exports p (.default name) := by
  have hlist := enumerates_ofSource s
  have hmem {e : Export} {n : String}
      (he : (match e with | .default n => some n | .named _ _ => none) = some n) :
      e = .default n := by
    cases e <;> cases he
    rfl
  unfold default?
  constructor
  · intro hfound
    obtain ⟨e, he, hn⟩ := List.exists_of_findSome?_eq_some hfound
    rw [hmem hn] at he
    exact hlist.mem_iff.mp (List.mem_reverse.mp he)
  · rintro ⟨p, hp⟩
    have hsome : ((ofSource s).reverse.findSome? fun e =>
        match e with
        | .default n => some n
        | .named _ _ => none).isSome = true :=
      List.findSome?_isSome_iff.mpr
        ⟨.default name, List.mem_reverse.mpr (hlist.mem_iff.mpr ⟨p, hp⟩), rfl⟩
    obtain ⟨n, hn⟩ := Option.isSome_iff_exists.mp hsome
    obtain ⟨e, he, hfound⟩ := List.exists_of_findSome?_eq_some hn
    rw [hmem hfound] at he
    obtain ⟨q, hq⟩ := hlist.mem_iff.mp (List.mem_reverse.mp he)
    cases h p q _ _ hp hq
    cases hlist.eq_of_position hp hq
    exact hn

/-- The export under a name of its own that is found for a name. -/
def named? (name : String) : Export → Option (ExportKind × String)
  | .named n exported => if n = name then some (.named, exported) else none
  | .default _ => none

theorem named?_eq_some_iff {e : Export} : named? name e = some (kind, exported) ↔
    kind = .named ∧ e = .named name exported := by
  cases e with
  | default n => simp [named?]
  | named n x =>
      rw [named?]
      split
      · next h => simp [h, eq_comm]
      · next h => simp [h]

theorem lookup_eq (es : List Export) (name : String) : lookup es name =
    if default? es = some name then some (.default, "default") else es.findSome? (named? name) := by
  unfold lookup
  split
  · rfl
  · rfl

/-- A name leaves a source if it is exported. -/
theorem lookup_isSome_iff (h : s.HasOneDefault) :
    (lookup (ofSource s) name).isSome = true ↔ s.IsExported name := by
  have hlist := enumerates_ofSource s
  rw [lookup_eq, Source.IsExported, exists_or, ← default?_eq_some_iff h]
  split
  · next hdefault => exact iff_of_true rfl (.inl hdefault)
  · next hdefault =>
    rw [or_iff_right hdefault, List.findSome?_isSome_iff]
    constructor
    · rintro ⟨e, he, hsome⟩
      obtain ⟨⟨kind, exported⟩, hnamed⟩ := Option.isSome_iff_exists.mp hsome
      obtain ⟨-, rfl⟩ := named?_eq_some_iff.mp hnamed
      obtain ⟨p, hp⟩ := hlist.mem_iff.mp he
      exact ⟨p, exported, hp⟩
    · rintro ⟨p, exported, hp⟩
      refine ⟨_, hlist.mem_iff.mpr ⟨p, hp⟩, Option.isSome_iff_exists.mpr ⟨(.named, exported), ?_⟩⟩
      exact named?_eq_some_iff.mpr ⟨rfl, rfl⟩

/-- A name leaves a source as the default if it is what the default export stands for. -/
theorem kind_eq_default_iff_default? {es : List Export} (h : lookup es name = some (kind, exported)) :
    kind = .default ↔ default? es = some name := by
  rw [lookup_eq] at h
  split at h
  · next hdefault =>
    cases h
    exact iff_of_true rfl hdefault
  · next hdefault =>
    refine iff_of_false (fun hk => ?_) hdefault
    obtain ⟨e, -, hnamed⟩ := List.exists_of_findSome?_eq_some h
    rw [(named?_eq_some_iff.mp hnamed).1] at hk
    cases hk

/-- A name that leaves a source as the default is the default. -/
theorem kind_eq_default_iff (h : s.HasOneDefault)
    (hlookup : lookup (ofSource s) name = some (kind, exported)) :
    kind = .default ↔ ∃ p, s.Exports p (.default name) := by
  rw [kind_eq_default_iff_default? hlookup, default?_eq_some_iff h]

/-- A name that leaves a source under a name of its own does so under the first one. -/
theorem exists_first_of_named (hlookup : lookup (ofSource s) name = some (.named, exported)) :
    ∃ p, s.Exports p (.named name exported) ∧
      ∀ q exported', s.Exports q (.named name exported') → ¬ q < p := by
  rw [lookup_eq] at hlookup
  split at hlookup
  · cases hlookup
  · obtain ⟨p, e, hp, hnamed, hfirst⟩ := (enumerates_ofSource s).exists_of_findSome? hlookup
    obtain ⟨-, rfl⟩ := named?_eq_some_iff.mp hnamed
    refine ⟨p, hp, fun q exported' hq => hfirst q _ hq ?_⟩
    exact Option.isSome_iff_exists.mpr ⟨(.named, exported'), named?_eq_some_iff.mpr ⟨rfl, rfl⟩⟩

end lookup

end Export

/-! ### Components -/

namespace Tree

/-- Whether elements are visited in the body of a function. -/
def holdsMarkup (f : Tree) : Bool := !((f.part? .body).elim [] (Markup.visits [])).isEmpty

/-- Elements are visited if there are some. -/
theorem holdsMarkup_iff {f : Tree} : f.holdsMarkup = true ↔ f.HoldsMarkup := by
  unfold holdsMarkup HoldsMarkup
  cases hbody : f.part? .body with
  | none => simp
  | some body =>
      have hlength := (Markup.visits_places body []).length_eq
      rw [Option.elim_some, Bool.not_eq_true', List.isEmpty_eq_false_iff, ← List.length_pos_iff,
        ← hlength, List.length_pos_iff_exists_mem]
      simp only [mem_elementPlaces]
      constructor
      · rintro ⟨q, e, hq, he⟩
        exact ⟨body, q, e, rfl, hq, he⟩
      · rintro ⟨_, q, e, hbody, hq, he⟩
        cases hbody
        exact ⟨q, e, hq, he⟩

end Tree

section reports
variable {modules : Modules} {s : Source}

/-- The name that a candidate has as a component, if it is one. -/
def Candidate.reportedName? (s : Source) (c : Candidate) : Option String :=
  if (Export.lookup (Export.ofSource s) c.name).isSome && !c.visits.isEmpty then some c.name
  else none

theorem Analysis.map_name_components (modules : Modules) (s : Source) :
    (components modules s).map (·.name) =
      (Candidate.ofSource s).filterMap (Candidate.reportedName? s) := by
  rw [components, exported, List.filterMap_filterMap, List.map_filterMap]
  congr 1
  funext c
  rw [Candidate.reportedName?]
  cases Export.lookup (Export.ofSource s) c.name with
  | none => rfl
  | some e =>
      obtain ⟨kind, name⟩ := e
      rw [Option.map_some, Option.bind_some]
      unfold Candidate.component?
      by_cases h : c.visits.isEmpty = true <;> simp [h]

/-- The components of a source, in the order of their declarations. -/
theorem Analysis.enumerates_names (hdefault : s.HasOneDefault) :
    Enumerates (fun p name => ∃ f, s.Declares p name f ∧ StartsUpper name ∧ f.HoldsMarkup ∧
      s.IsExported name) ((components modules s).map (·.name)) := by
  have hnames : (Candidate.ofSource s).filterMap (Candidate.reportedName? s) =
      ((Candidate.ofSource s).map Candidate.named).filterMap fun x =>
        if (Export.lookup (Export.ofSource s) x.1).isSome && x.2.holdsMarkup then some x.1
        else none := by
    rw [List.filterMap_map]
    rfl
  rw [map_name_components, hnames]
  refine ((Candidate.enumerates_ofSource s).filterMap _).congr fun p name => ?_
  constructor
  · rintro ⟨⟨n, f⟩, ⟨hdeclares, hupper⟩, hsome⟩
    split at hsome
    · next h =>
      cases hsome
      obtain ⟨hexported, hmarkup⟩ := Bool.and_eq_true_iff.mp h
      exact ⟨f, hdeclares, hupper, Tree.holdsMarkup_iff.mp hmarkup,
        (Export.lookup_isSome_iff hdefault).mp hexported⟩
    · cases hsome
  · rintro ⟨f, hdeclares, hupper, hmarkup, hexported⟩
    refine ⟨(name, f), ⟨hdeclares, hupper⟩, if_pos (Bool.and_eq_true_iff.mpr ?_)⟩
    exact ⟨(Export.lookup_isSome_iff hdefault).mpr hexported, Tree.holdsMarkup_iff.mpr hmarkup⟩

/-- A component is exported as the lookup of its name says. -/
theorem Analysis.lookup_name {c : Component} (hc : c ∈ components modules s) :
    Export.lookup (Export.ofSource s) c.name = some (c.exportKind, c.exportedAs) := by
  obtain ⟨⟨cand, kind, name⟩, hcand, hc⟩ := List.mem_filterMap.mp hc
  obtain ⟨cand', _, hcand⟩ := List.mem_filterMap.mp hcand
  obtain ⟨e, he, heq⟩ := Option.map_eq_some_iff.mp hcand
  cases heq
  obtain ⟨hkind, hname⟩ := Candidate.export_of_component? hc
  rw [Candidate.name_of_component? hc, hkind, hname, he]

/-- An analysis reports the exported components of a source with at most one default export. -/
theorem Analysis.reports (modules : Modules) (h : s.HasOneDefault) :
    s.Reports (components modules s) := by
  refine ⟨enumerates_names h, fun c hc => ?_, fun c hc hkind => ?_⟩
  · exact Export.kind_eq_default_iff h (lookup_name hc)
  · exact Export.exists_first_of_named (hkind ▸ lookup_name hc)

/-- A source whose exports stand before and after what they export. -/
def scattered : Option Source :=
  (Source.ofText ⟨"A.tsx"⟩
    "export {A as B,A,C as default};function C(){return <p/>}\nexport const A=()=><p/>,d=1;"
    ).toOption

theorem Analysis.reports_scattered : ∃ s ∈ scattered, s.Reports (components .none s) ∧
    (components .none s).map (fun c => (c.name, c.exportKind, c.exportedAs)) =
      [("C", .default, "default"), ("A", .named, "B")] := by
  have h : ∃ s ∈ scattered, ((Export.ofSource s).filter Export.isDefault).length ≤ 1 ∧
      (components .none s).map (fun c => (c.name, c.exportKind, c.exportedAs)) =
        [("C", .default, "default"), ("A", .named, "B")] := by decide +kernel
  obtain ⟨s, hs, hdefault, hnames⟩ := h
  exact ⟨s, hs, reports .none (Export.hasOneDefault_of_length hdefault), hnames⟩

end reports

end Trellis
