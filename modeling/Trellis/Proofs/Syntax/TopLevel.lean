import Trellis.Proofs.Syntax.Yields
import Trellis.Syntax.Parse

/-! # Names at the top level

The names that the statements of a module declare and export are words of its source, but for names of
exports, which may be quoted texts.

* `Draft.IsSpelled` says so of a node for a statement.
* `Grammar.Reads` says what the parts of a grammar read: statements that are spelled so, and expressions
  that are taken for nothing else. `Grammar.yields_statement` and `Grammar.ordinary_fullExpression`: if
  the parts inside do, then so does the whole.
* `exists_draft_of_parse?`: but for comments, the parts of a source come from nodes that are spelled so. -/

namespace Trellis.Syntax

open Reader Lexeme

variable {source : List Char}

/-! ### Nodes -/

namespace Draft

/-- The first part of a node with a label. -/
def part? (d : Draft) (l : Label) : Option Draft := d.children.find? (·.label = l)

/-- The text of a node in its source. -/
def text (source : List Char) (d : Draft) : List Char := d.span.text source

/-- Whether a node is not labelled and no clause of an export. -/
structure IsOrdinary (d : Draft) : Prop where
  /-- It has no label. -/
  label : d.label = .none
  /-- It is no clause of an export. -/
  kind : d.kind ≠ .exportClause

/-- Whether the names that a declaration declares are words. -/
structure DeclaresWords (source : List Char) (d : Draft) : Prop where
  /-- The name of a function is a word. -/
  function : d.kind = .functionDeclaration → ∀ n, d.part? .name = some n → IsWord (n.text source)
  /-- The names of variables are words. -/
  declarators : d.kind = .lexicalDeclaration ∨ d.kind = .variableDeclaration → ∀ v ∈ d.children,
    ∀ n, v.part? .name = some n → n.kind = .identifier → IsWord (n.text source)

/-- Whether a declaration declares words, and is neither an export nor in the braces of one. -/
structure IsDeclaration (source : List Char) (d : Draft) : Prop where
  /-- The names that it declares are words. -/
  words : d.DeclaresWords source
  /-- It is no export, and no clause of one. -/
  kind : d.kind ≠ .exportStatement ∧ d.kind ≠ .exportClause

/-- Whether the names of a part of an export are words, or quoted texts if they are in braces. -/
structure IsExportPart (source : List Char) (c : Draft) : Prop where
  /-- The names in a declaration are words. -/
  declaration : c.label = .declaration → c.DeclaresWords source
  /-- The names in braces are words or quoted texts. -/
  clause : c.kind = .exportClause → ∀ x ∈ c.children, ∀ n ∈ x.children,
    IsExportName (n.text source)

/-- Whether the names in a statement are words, but names of exports also quoted texts. -/
structure IsSpelled (source : List Char) (d : Draft) : Prop where
  /-- Names that it declares are words. -/
  declares : d.DeclaresWords source
  /-- Names that it exports are words or quoted texts. -/
  exports : d.kind = .exportStatement → ∀ c ∈ d.children, c.IsExportPart source

variable {d : Draft}

@[simp] theorem label_as (d : Draft) (l : Label) : (d.as l).label = l := by cases d; rfl

@[simp] theorem kind_as (d : Draft) (l : Label) : (d.as l).kind = d.kind := by cases d; rfl

@[simp] theorem children_as (d : Draft) (l : Label) : (d.as l).children = d.children := by
  cases d; rfl

@[simp] theorem text_as (d : Draft) (l : Label) : (d.as l).text source = d.text source := by
  cases d; rfl

/-- A part that is labelled in the first place is found by its label. -/
theorem part?_of_children {n : Draft} {l : Label} {ds : List Draft}
    (h : d.children = n.as l :: ds) : d.part? l = some (n.as l) := by
  rw [part?, h, List.find?_cons_of_pos (by simp)]

/-- The kinds of statements that declare or export something, and of clauses of exports. -/
def namingKinds : List Kind :=
  [.functionDeclaration, .lexicalDeclaration, .variableDeclaration, .exportStatement, .exportClause]

theorem isDeclaration_of_kind (h : d.kind ∉ namingKinds) : d.IsDeclaration source := by
  simp only [namingKinds, List.mem_cons, List.not_mem_nil, or_false, not_or] at h
  obtain ⟨hfunction, hlexical, hvariable, hexport, hclause⟩ := h
  refine ⟨⟨fun hk => absurd hk hfunction, ?_⟩, hexport, hclause⟩
  rintro (hk | hk)
  · exact absurd hk hlexical
  · exact absurd hk hvariable

theorem IsDeclaration.isSpelled (h : d.IsDeclaration source) : d.IsSpelled source :=
  ⟨h.words, fun hk => absurd hk h.kind.1⟩

/-- A declaration that is exported exports no other names than those that it declares. -/
theorem IsDeclaration.isExportPart (h : d.IsDeclaration source) (l : Label) :
    (d.as l).IsExportPart source where
  declaration _ :=
    ⟨fun hk n hn => h.words.function (by rwa [kind_as] at hk) n (by rwa [part?, children_as] at hn),
      fun hk v hv => h.words.declarators (by rwa [kind_as] at hk) v (by rwa [children_as] at hv)⟩
  clause hk := absurd ((kind_as d l).symm.trans hk) h.kind.2

theorem isExportPart_of_kind (hl : d.label ≠ .declaration) (hk : d.kind ≠ .exportClause) :
    d.IsExportPart source :=
  ⟨fun h => absurd h hl, fun h => absurd h hk⟩

/-- A part of an export that is neither a declaration nor in braces exports no names. -/
theorem IsOrdinary.isExportPart (h : d.IsOrdinary) : d.IsExportPart source :=
  isExportPart_of_kind (by rw [h.label]; decide) h.kind

end Draft

open Draft

/-- Whether the parts of a grammar read what they should. -/
structure Grammar.Reads (g : Grammar source) : Prop where
  /-- Expressions are ordinary. -/
  expression : ∀ plain, Yields (g.read (.expression plain)) IsOrdinary
  /-- So are operands with operators. -/
  operators : ∀ plain level, Yields (g.read (.operators plain level)) IsOrdinary
  /-- So are operands. -/
  operand : ∀ plain, Yields (g.read (.operand plain)) IsOrdinary
  /-- So are elements. -/
  element : Yields (g.read .element) IsOrdinary
  /-- The names in statements are words, but for quoted names of exports. -/
  statement : Yields (g.read .statement) (IsSpelled source)

section ordinary
variable {kind : Kind}

theorem isOrdinary_node (h : kind ≠ .exportClause) (s : Span) (ds : List Draft) :
    (Draft.node kind .none s ds).IsOrdinary :=
  ⟨rfl, h⟩

theorem ordinary_build (h : kind ≠ .exportClause) (r : Reader source (List Draft)) :
    Yields (build kind r) IsOrdinary :=
  yields_build_kind r fun _ hk hl => ⟨hl, fun hk' => h (hk.symm.trans hk')⟩

theorem ordinary_extend (h : kind ≠ .exportClause) (first : Draft)
    (r : Reader source (List Draft)) : Yields (extend kind first r) IsOrdinary :=
  yields_extend first r fun _ hk hl => ⟨hl, fun hk' => h (hk.symm.trans hk')⟩

theorem ordinary_lexeme (h : kind ≠ .exportClause) (length? : List Char → Option Nat) :
    Yields (lexeme kind length? : Reader source Draft) IsOrdinary := by
  refine yields_bind fun _ => yields_bind fun s => ?_
  split
  · exact yields_bind fun span => yields_pure (isOrdinary_node h _ _)
  · exact yields_failure

end ordinary

/-! ### Operands -/

namespace Grammar

section operands
variable {g : Grammar source}

theorem ordinary_variableName : Yields (variableName : Reader source Draft) IsOrdinary :=
  yields_bind fun _ => yields_bind fun _ => yields_pure (isOrdinary_node (by decide) _ _)

theorem ordinary_valueWord : Yields (valueWord : Reader source Draft) IsOrdinary := by
  refine yields_bind fun x => ?_
  dsimp only
  split
  · next k hk =>
    obtain ⟨before, after, hsplit, -⟩ := List.lookup_eq_some_iff.mp hk
    have hkinds : ∀ y ∈ [("this", Kind.this), ("super", .super), ("true", .true),
        ("false", .false), ("null", .null), ("undefined", .undefined)],
        y.2 ≠ .exportClause := by decide
    refine yields_pure (isOrdinary_node (hkinds (x.1, k) ?_) _ _)
    rw [hsplit]
    exact List.mem_append_right _ List.mem_cons_self
  · exact yields_failure

theorem ordinary_metaProperty : Yields (metaProperty : Reader source Draft) IsOrdinary :=
  ordinary_build (by decide) _

theorem ordinary_importWord : Yields (importWord : Reader source Draft) IsOrdinary :=
  yields_bind fun _ => yields_bind fun _ => yields_pure (isOrdinary_node (by decide) _ _)

theorem ordinary_functionExpression : Yields g.functionExpression IsOrdinary := by
  refine yields_bind fun _ => yields_bind fun p => yields_bind fun generator => ?_
  refine yields_bind fun n => yields_bind fun parts => yields_bind fun q => ?_
  refine yields_pure (isOrdinary_node ?_ _ _)
  cases generator <;> decide

theorem ordinary_variableOrFunction : Yields (simpleOperand.variableOrFunction g) IsOrdinary :=
  .orElse ordinary_functionExpression <| .orElse ordinary_variableName <|
    .orElse ordinary_valueWord <| .orElse ordinary_metaProperty <|
      .orElse ordinary_importWord (ordinary_build (by decide) _)

theorem ordinary_simpleOperand (hg : g.Reads) : Yields g.simpleOperand IsOrdinary := by
  refine yields_bind fun ahead => ?_
  cases ahead with
  | none => exact yields_failure
  | some c =>
      refine yields_ite (ordinary_build (by decide) _) ?_
      refine yields_ite (ordinary_build (by decide) _) ?_
      refine yields_ite (ordinary_build (by decide) _) ?_
      refine yields_ite (ordinary_build (by decide) _) ?_
      refine yields_ite (ordinary_lexeme (by decide) _) ?_
      refine yields_ite (ordinary_lexeme (by decide) _) ?_
      refine yields_ite (ordinary_build (by decide) _) ?_
      refine yields_ite (ordinary_build (by decide) _) ?_
      refine yields_ite (yields_bind fun _ => hg.element) ?_
      exact .orElse (ordinary_lexeme (by decide) _) ordinary_variableOrFunction

theorem ordinary_accessRest {first : Draft} (h : first.IsOrdinary) (n : Nat) :
    Yields (g.accessRest first n) IsOrdinary := by
  induction n generalizing first with
  | zero => exact yields_pure h
  | succ n ih =>
      have hnext : Yields (memberAccess first <|> g.subscript first <|> g.call first <|>
          g.nonNull first <|> g.instantiation first) IsOrdinary :=
        .orElse (ordinary_extend (by decide) _ _) <| .orElse (ordinary_extend (by decide) _ _) <|
          .orElse (ordinary_extend (by decide) _ _) <| .orElse
            (yields_bind fun _ => yields_bind fun p => ordinary_extend (by decide) _ _)
            (ordinary_extend (by decide) _ _)
      refine hnext.optional.bind fun next hd => ?_
      cases next with
      | none => exact yields_pure h
      | some d => exact ih (hd d rfl)

theorem ordinary_access (hg : g.Reads) : Yields g.access IsOrdinary := by
  have hnested : Yields (access.nested g) IsOrdinary :=
    yields_bind fun _ => .orElse (ordinary_build (by decide) _) (ordinary_build (by decide) _)
  have hfirst : Yields (metaProperty <|> access.nested g <|> g.simpleOperand) IsOrdinary :=
    .orElse ordinary_metaProperty (.orElse hnested (ordinary_simpleOperand hg))
  exact hfirst.bind fun first h => yields_bind fun n => ordinary_accessRest h n

theorem ordinary_assigned (hg : g.Reads) (plain : Bool) : Yields (g.assigned plain) IsOrdinary := by
  refine (ordinary_access hg).bind fun d hd => yields_bind fun p => ?_
  refine yields_ite ?_ (yields_ite (yields_bind fun _ => yields_pure hd) (yields_pure hd))
  exact .orElse (ordinary_extend (by decide) _ _) <| .orElse (ordinary_extend (by decide) _ _) <|
    .orElse (ordinary_extend (by decide) _ _) (yields_pure hd)

theorem ordinary_operand (hg : g.Reads) (plain : Bool) : Yields (g.operand plain) IsOrdinary := by
  have harrow : Yields (g.arrowFunction plain) IsOrdinary :=
    .orElse (ordinary_build (by decide) _) (ordinary_build (by decide) _)
  have hunary : Yields (g.unary plain) IsOrdinary :=
    .orElse (ordinary_build (by decide) _) (ordinary_build (by decide) _)
  exact .orElse harrow <| .orElse (ordinary_build (by decide) _) <| .orElse hunary <|
    .orElse (ordinary_build (by decide) _) <| .orElse (ordinary_build (by decide) _) <|
      .orElse (ordinary_assigned hg plain) (yields_bind fun p => ordinary_extend (by decide) _ _)

/-! ### Expressions -/

theorem ordinary_operatorRest {first : Draft} (h : first.IsOrdinary) (plain : Bool) (level n : Nat) :
    Yields (g.operatorRest plain level first n) IsOrdinary := by
  induction n generalizing first with
  | zero => exact yields_pure h
  | succ n ih =>
      refine (Yields.optional (P := IsOrdinary) ?_).bind fun next hd => ?_
      · exact .orElse (ordinary_extend (by decide) _ _) <|
          .orElse (ordinary_extend (by decide) _ _) (ordinary_extend (by decide) _ _)
      · cases next with
        | none => exact yields_pure h
        | some d => exact ih (hd d rfl)

theorem ordinary_operators (hg : g.Reads) (plain : Bool) (level : Nat) :
    Yields (g.operators plain level) IsOrdinary :=
  (hg.operand plain).bind fun _ h => yields_bind fun n => ordinary_operatorRest h plain level n

theorem ordinary_fullExpression (hg : g.Reads) (plain : Bool) :
    Yields (g.fullExpression plain) IsOrdinary :=
  (hg.operators plain 0).bind fun _ h => .orElse (ordinary_extend (by decide) _ _) (yields_pure h)

theorem ordinary_element : Yields g.element IsOrdinary := by
  refine yields_bind fun _ => yields_bind fun p => yields_bind fun _ => yields_bind fun content => ?_
  refine .orElse ?_ ?_
  · refine yields_bind fun _ => yields_bind fun _ => yields_bind fun q => ?_
    exact yields_pure (isOrdinary_node (by decide) _ _)
  · refine yields_bind fun _ => yields_bind fun q => yields_bind fun n => ?_
    refine yields_bind fun children => yields_bind fun last => yields_bind fun q' => ?_
    exact yields_pure (isOrdinary_node (by decide) _ _)

end operands

/-! ### Declarations -/

section declarations
variable {g : Grammar source} {kind : Kind}

theorem isDeclaration_node (h : kind ∉ namingKinds) (l : Label) (s : Span) (ds : List Draft) :
    (Draft.node kind l s ds).IsDeclaration source :=
  isDeclaration_of_kind h

theorem declaration_build (h : kind ∉ namingKinds) (r : Reader source (List Draft)) :
    Yields (build kind r) (IsDeclaration source) :=
  yields_build_kind r fun d hk _ => isDeclaration_of_kind (by rwa [hk])

theorem declaration_function : Yields g.functionDeclaration (IsDeclaration source) := by
  refine yields_bind fun _ => yields_bind fun p => yields_bind fun generator => ?_
  refine (yields_name .identifier).bind fun n hn => .orElse ?_ ?_
  · refine yields_bind fun parts => yields_bind fun q => yields_pure ?_
    cases generator with
    | true => exact isDeclaration_node (by decide) _ _ _
    | false =>
        refine ⟨⟨fun _ n' hn' => ?_, ?_⟩, nofun, nofun⟩
        · rw [part?_of_children rfl] at hn'
          cases hn'
          rw [text_as]
          exact hn.2.2
        · rintro (h | h) <;> cases h
  · refine yields_bind fun _ => yields_bind fun parts => yields_bind fun q => ?_
    exact yields_bind fun _ => yields_pure (isDeclaration_node (by decide) _ _ _)

/-- The name of a variable is a word. -/
theorem yields_variableDeclarator : Yields g.variableDeclarator fun v =>
    ∀ n, v.part? .name = some n → n.kind = .identifier → IsWord (n.text source) := by
  have hname : Yields (g.bracketPattern <|> name .identifier) fun n =>
      n.kind = .identifier → IsWord (n.text source) := by
    refine .orElse (.orElse ?_ ?_) ((yields_name _).mono fun n hn _ => hn.2.2)
    · exact yields_build_kind _ fun n hn _ hk => by cases hn.symm.trans hk
    · exact yields_build_kind _ fun n hn _ hk => by cases hn.symm.trans hk
  refine yields_build (P := fun ds => ∃ (n : Draft) (rest : List Draft), ds = n.as .name :: rest ∧
    (n.kind = .identifier → IsWord (n.text source))) ?_ fun v _ _ hv n hn hk => ?_
  · refine hname.bind fun n hn => yields_ite ?_ ?_
    · exact yields_bind fun _ => yields_bind fun _ => yields_pure ⟨n, _, rfl, hn⟩
    · exact yields_bind fun _ => yields_bind fun _ => yields_pure ⟨n, _, rfl, hn⟩
  · obtain ⟨n', rest, hchildren, hword⟩ := hv
    rw [part?_of_children hchildren] at hn
    cases hn
    rw [text_as]
    exact hword (by rwa [kind_as] at hk)

theorem declaration_declarators (hkind : kind = .lexicalDeclaration ∨ kind = .variableDeclaration)
    (words : List String) : Yields (g.declarators kind words) (IsDeclaration source) := by
  refine yields_build (P := fun ds => ∀ v ∈ ds, ∀ n, v.part? .name = some n →
    n.kind = .identifier → IsWord (n.text source)) ?_ fun d hd _ hvariables => ?_
  · refine yields_bind fun _ => yields_variableDeclarator.list1.bind fun ds hds => ?_
    exact yields_ite (yields_bind fun _ => yields_pure hds) (yields_bind fun _ => yields_pure hds)
  · refine ⟨⟨fun hk => ?_, fun _ v hv => hvariables v hv⟩, ?_⟩
    · rcases hkind with rfl | rfl <;> cases hd.symm.trans hk
    · rw [hd]
      rcases hkind with rfl | rfl <;> decide

theorem declaration_plain : Yields g.plainDeclaration (IsDeclaration source) := by
  have hclass : Yields g.classDeclaration (IsDeclaration source) :=
    .orElse (declaration_build (by decide) _) (declaration_build (by decide) _)
  refine yields_bind fun marked => yields_ite hclass (yields_bind fun ahead => ?_)
  split
  · exact declaration_function
  · exact declaration_function
  · exact hclass
  · exact declaration_declarators (.inr rfl) _
  · exact declaration_declarators (.inl rfl) _
  · refine .orElse (yields_bind fun _ => ?_) (declaration_declarators (.inl rfl) _)
    exact declaration_build (by decide) _
  · refine yields_bind fun _ => ?_
    split
    · exact declaration_build (by decide) _
    · exact declaration_build (by decide) _
    · exact declaration_build (by decide) _
    · exact hclass
    · exact declaration_build (by decide) _
    · exact declaration_build (by decide) _
    · exact yields_failure
  · exact yields_failure

theorem yields_declaration : Yields g.declaration (IsDeclaration source) :=
  .orElse declaration_plain (yields_bind fun _ => declaration_build (by decide) _)

end declarations

/-! ### Exports -/

section exports
variable {g : Grammar source} {kind : Kind}

theorem exportPart_build (h : kind ≠ .exportClause) (r : Reader source (List Draft)) :
    Yields (build kind r) (IsExportPart source) :=
  (ordinary_build h r).mono fun _ hd => hd.isExportPart

theorem yields_exportName : Yields (exportName : Reader source Draft) fun n =>
    IsExportName (n.text source) := by
  refine .orElse ?_ ((yields_name _).mono fun n hn => .inl hn.2.2)
  refine (yields_lexeme _ fun s n => le_of_string?).mono fun n hn => .inr ?_
  obtain ⟨-, -, t, ht⟩ := hn
  exact isQuoted_of_string? ht

theorem yields_specifier (member : Kind) : Yields (g.specifier member) fun x =>
    ∀ n ∈ x.children, IsExportName (n.text source) := by
  have hplain (n : Draft) (hn : IsExportName (n.text source)) (renamed : List Draft)
      (hr : ∀ m ∈ renamed, IsExportName (m.text source)) :
      ∀ m ∈ n.as .name :: renamed.map (·.as .alias), IsExportName (m.text source) := by
    refine List.forall_mem_cons.mpr ⟨by rwa [text_as], fun m hm => ?_⟩
    obtain ⟨m, hmem, rfl⟩ := List.mem_map.mp hm
    rw [text_as]
    exact hr m hmem
  have hrenamed : Yields (maybe (do let _ ← keyword "as"; exportName) : Reader source (List Draft))
      fun ds => ∀ m ∈ ds, IsExportName (m.text source) :=
    Yields.maybe (yields_bind fun _ => yields_exportName)
  refine yields_build (P := fun ds => ∀ n ∈ ds, IsExportName (n.text source)) (.orElse ?_ ?_)
    fun _ _ _ hx => hx
  · refine yields_bind fun _ => yields_bind fun _ => yields_exportName.bind fun n hn => ?_
    exact hrenamed.bind fun renamed hr => yields_bind fun _ => yields_pure (hplain n hn renamed hr)
  · refine yields_exportName.bind fun n hn => ?_
    exact hrenamed.bind fun renamed hr => yields_bind fun _ => yields_pure (hplain n hn renamed hr)

theorem exportPart_clause : Yields g.exportClause (IsExportPart source) := by
  refine yields_build (P := fun ds => ∀ x ∈ ds, ∀ n ∈ x.children, IsExportName (n.text source)) ?_
    fun c _ hl hc => ⟨fun hl' => ?_, fun _ x hx => hc x hx⟩
  · refine yields_bind fun _ => (yields_specifier _).list.bind fun ds hds => ?_
    exact yields_bind fun _ => yields_pure hds
  · cases hl.symm.trans hl'

theorem exportPart_fromClause : Yields (fromClause : Reader source Draft) (IsExportPart source) := by
  refine yields_bind fun _ => (ordinary_lexeme (by decide) _).bind fun d hd => yields_pure ?_
  refine isExportPart_of_kind ?_ ?_
  · rw [label_as]
    decide
  · rw [kind_as]
    exact hd.kind

theorem exportParts_reexport :
    Yields g.reexport fun ds => ∀ d ∈ ds, d.IsExportPart source := by
  have hattributes : Yields (maybe g.importAttribute) fun ds => ∀ d ∈ ds, d.IsExportPart source :=
    Yields.maybe (exportPart_build (by decide) _)
  refine Yields.bind (P := fun ds : List Draft => ∀ d ∈ ds, d.IsExportPart source)
    (.orElse ?_ (.orElse ?_ ?_)) fun parts hparts => ?_
  · refine Yields.bind (exportPart_build (by decide) _) fun n hn => ?_
    refine exportPart_fromClause.bind fun f hf => yields_pure ?_
    exact List.forall_mem_cons.mpr ⟨hn, List.forall_mem_singleton.mpr hf⟩
  · refine yields_bind fun _ => exportPart_fromClause.bind fun f hf => yields_pure ?_
    exact List.forall_mem_singleton.mpr hf
  · refine exportPart_clause.bind fun c hc => exportPart_fromClause.maybe.bind fun fs hfs => ?_
    exact yields_pure (List.forall_mem_cons.mpr ⟨hc, hfs⟩)
  · refine hattributes.bind fun attributes ha => yields_bind fun _ => yields_pure ?_
    exact List.forall_mem_append.mpr ⟨hparts, ha⟩

theorem ordinary_importStatement : Yields g.importStatement IsOrdinary :=
  .orElse (ordinary_build (by decide) _) (ordinary_build (by decide) _)

theorem exportParts_typed (hg : g.Reads) :
    Yields g.typedExport fun ds => ∀ d ∈ ds, d.IsExportPart source := by
  refine yields_bind fun _ => .orElse (yields_bind fun _ => exportParts_reexport) (.orElse ?_ ?_)
  · refine yields_bind fun _ => (hg.expression false).bind fun e he => yields_bind fun _ => ?_
    exact yields_pure (List.forall_mem_singleton.mpr he.isExportPart)
  · refine .orElse ?_ (ordinary_importStatement.bind fun i hi => yields_pure ?_)
    · refine yields_bind fun _ => yields_bind fun _ => (yields_name .identifier).bind fun n hn => ?_
      refine yields_bind fun _ => yields_pure (List.forall_mem_singleton.mpr ?_)
      exact isExportPart_of_kind (by rw [hn.2.1]; decide) (by rw [hn.1]; decide)
    · exact List.forall_mem_singleton.mpr hi.isExportPart

theorem exportParts_default (hg : g.Reads) :
    Yields g.defaultExport fun ds => ∀ d ∈ ds, d.IsExportPart source := by
  have hmark (span : Span) : (Draft.leaf .mark span).IsExportPart source :=
    isExportPart_of_kind nofun nofun
  refine yields_bind fun span => .orElse ?_ ?_
  · refine yields_declaration.bind fun d hd => yields_pure ?_
    exact List.forall_mem_cons.mpr ⟨hmark span, List.forall_mem_singleton.mpr (hd.isExportPart _)⟩
  · refine (hg.expression false).bind fun e he => yields_bind fun _ => yields_pure ?_
    refine List.forall_mem_cons.mpr ⟨hmark span, List.forall_mem_singleton.mpr ?_⟩
    exact isExportPart_of_kind (by rw [label_as]; decide) (by rw [kind_as]; exact he.kind)

theorem spelled_exportStatement (hg : g.Reads) :
    Yields g.exportStatement (IsSpelled source) := by
  refine yields_build (P := fun ds => ∀ d ∈ ds, d.IsExportPart source) ?_ fun d hk _ hd => ?_
  · have hdecorators : Yields (many g.decorator) fun ds => ∀ d ∈ ds, d.IsExportPart source :=
      Yields.many (exportPart_build (by decide) _)
    have hdeclaration : Yields (do return [(← g.declaration).as .declaration]) fun ds =>
        ∀ d ∈ ds, d.IsExportPart source :=
      yields_declaration.bind fun d hd =>
        yields_pure (List.forall_mem_singleton.mpr (hd.isExportPart _))
    refine hdecorators.bind fun decorators hds => yields_bind fun _ => ?_
    refine Yields.bind (.orElse (exportParts_typed hg) (.orElse exportParts_reexport
      (.orElse (exportParts_default hg) hdeclaration))) fun parts hparts => yields_pure ?_
    exact List.forall_mem_append.mpr ⟨hds, hparts⟩
  · refine ⟨⟨fun hk' => ?_, ?_⟩, fun _ => hd⟩
    · cases hk.symm.trans hk'
    · rintro (hk' | hk') <;> cases hk.symm.trans hk'

end exports

/-! ### Statements -/

section statements
variable {g : Grammar source} {kind : Kind}

theorem spelled_build (h : kind ∉ namingKinds) (r : Reader source (List Draft)) :
    Yields (build kind r) (IsSpelled source) :=
  (declaration_build h r).mono fun _ hd => hd.isSpelled

theorem spelled_importOrExport (hg : g.Reads) : Yields g.importOrExport (IsSpelled source) := by
  refine yields_bind fun ahead => ?_
  split
  · exact .orElse (spelled_build (by decide) _) (spelled_build (by decide) _)
  · exact spelled_exportStatement hg
  · exact yields_bind fun _ => yields_bind fun _ => spelled_exportStatement hg

theorem spelled_declaration : Yields g.declaration (IsSpelled source) :=
  yields_declaration.mono fun _ hd => hd.isSpelled

theorem spelled_other (hg : g.Reads) : Yields g.otherStatement (IsSpelled source) :=
  .orElse (spelled_importOrExport hg) <| .orElse spelled_declaration <|
    .orElse (spelled_build (by decide) _) (yields_bind fun _ => spelled_build (by decide) _)

/-- The names of a statement are words, if the parts inside read what they should. -/
theorem yields_statement (hg : g.Reads) : Yields g.statement (IsSpelled source) := by
  refine yields_bind fun ahead => ?_
  split
  · exact yields_failure
  · exact spelled_build (by decide) _
  · exact .orElse (spelled_build (by decide) _) (spelled_build (by decide) _)
  · refine yields_bind fun word => ?_
    split
    · exact spelled_build (by decide) _
    · exact spelled_build (by decide) _
    · exact .orElse (spelled_build (by decide) _) (spelled_build (by decide) _)
    · exact spelled_build (by decide) _
    · exact spelled_build (by decide) _
    · exact spelled_build (by decide) _
    · exact spelled_build (by decide) _
    · exact spelled_build (by decide) _
    · exact spelled_build (by decide) _
    · exact spelled_build (by decide) _
    · exact spelled_build (by decide) _
    · exact spelled_build (by decide) _
    · exact spelled_declaration
    · exact spelled_declaration
    · exact spelled_other hg

theorem spelled_statements (hg : g.Reads) :
    Yields g.statements fun ds => ∀ d ∈ ds, d.IsSpelled source := by
  refine Yields.bind (Yields.many (P := fun ds => ∀ d ∈ ds, d.IsSpelled source)
    (.orElse ?_ ?_)) fun dss hdss => yields_pure ?_
  · exact yields_bind fun _ => yields_pure fun d hd => absurd hd List.not_mem_nil
  · exact hg.statement.bind fun d hd => yields_pure (List.forall_mem_singleton.mpr hd)
  · intro d hd
    obtain ⟨ds, hds, hd⟩ := List.mem_flatten.mp hd
    exact hdss ds hds d hd

end statements

end Grammar

/-! ### Sources -/

/-- The parts of the grammar of a dialect read what they should, however deep they lie. -/
theorem reads_readGoal (typed markup : Bool) (depth : Nat) :
    (⟨typed, markup, readGoal typed markup depth⟩ : Grammar source).Reads := by
  -- a reader of one depth reads by the parts of the grammar of the depth below
  induction depth with
  | zero =>
      exact ⟨fun _ => yields_failure, fun _ _ => yields_failure, fun _ => yields_failure,
        yields_failure, yields_failure⟩
  | succ depth ih =>
      exact ⟨Grammar.ordinary_fullExpression ih, Grammar.ordinary_operators ih,
        Grammar.ordinary_operand ih, Grammar.ordinary_element, Grammar.yields_statement ih⟩

theorem spelled_program {g : Grammar source} (hg : g.Reads) :
    Yields (program g) fun d => ∀ c ∈ d.children, c.IsSpelled source := by
  have hfirst : Yields (maybe (do
      require ("#!".toList.isPrefixOf (← Reader.rest))
      let n := ((← Reader.rest).takeWhile (! Lexeme.isBreak ·)).length
      return .leaf .hashBang (← Reader.take n) : Reader source Draft)) fun ds =>
        ∀ d ∈ ds, d.IsSpelled source := by
    refine Yields.maybe (yields_bind fun _ => yields_bind fun _ => yields_bind fun _ => ?_)
    refine yields_bind fun span => yields_pure (IsDeclaration.isSpelled ?_)
    exact Grammar.isDeclaration_node (by decide) _ _ _
  refine hfirst.bind fun first h => (Grammar.spelled_statements hg).bind fun ss hss => ?_
  refine yields_bind fun _ => yields_bind fun p => yields_bind fun _ => yields_pure ?_
  exact List.forall_mem_append.mpr ⟨h, hss⟩

/-! ### Trees -/

namespace Draft

variable {d : Draft} {t : Tree} {l : Label} {cs : List Span}

@[simp] theorem kind_finish (source : Array Char) (cs : List Span) (d : Draft) :
    (d.finish source cs).kind = d.kind := by
  cases d
  rw [finish]
  rfl

@[simp] theorem label_finish (source : Array Char) (cs : List Span) (d : Draft) :
    (d.finish source cs).label = d.label := by
  cases d
  rw [finish]
  rfl

/-- The text of a finished tree is that of the node. -/
theorem text_finish (cs : List Span) (d : Draft) :
    (d.finish source.toArray cs).text.toList = d.text source := by
  obtain ⟨k, l, s, ds⟩ := d
  rw [finish, Tree.text, slice, String.toList_ofList, Array.toList_extract]
  rfl

/-- The children of a finished tree are comments and the trees of the parts. -/
theorem mem_children_finish {source : Array Char} (h : t ∈ (d.finish source cs).children) :
    t.kind = .comment ∨ ∃ c ∈ d.children, ∃ cs', t = c.finish source cs' := by
  obtain ⟨k, l, s, ds⟩ := d
  rw [finish, Tree.children] at h
  have hcomment {cs : List Span} (h : t ∈ cs.map (commentTree source)) : t.kind = .comment := by
    obtain ⟨c, -, rfl⟩ := List.mem_map.mp h
    rfl
  change t.kind = .comment ∨ ∃ c ∈ ds, ∃ cs', t = c.finish source cs'
  induction ds generalizing cs with
  | nil =>
      rw [finishAll] at h
      exact .inl (hcomment h)
  | cons c ds ih =>
      obtain ⟨k', l', s', ds'⟩ := c
      rw [finishAll] at h
      rcases List.mem_append.mp h with h | h
      · exact .inl (hcomment h)
      · rcases List.mem_cons.mp h with rfl | h
        · exact .inr ⟨_, List.mem_cons_self, _, rfl⟩
        · obtain hc | ⟨c, hc, cs', rfl⟩ := ih h
          · exact .inl hc
          · exact .inr ⟨c, List.mem_cons_of_mem _ hc, cs', rfl⟩

/-- A labelled part of a finished tree is the tree of the part with the label. -/
theorem exists_of_part?_finish {source : Array Char} (hl : l ≠ .none)
    (h : (d.finish source cs).part? l = some t) :
    ∃ n cs', d.part? l = some n ∧ t = n.finish source cs' := by
  obtain ⟨k, l', s, ds⟩ := d
  rw [finish, Tree.part?, Tree.children] at h
  have hcomments (cs : List Span) :
      (cs.map (commentTree source)).find? (fun t => t.label = l) = none := by
    refine List.find?_eq_none.mpr fun t ht => ?_
    obtain ⟨c, -, rfl⟩ := List.mem_map.mp ht
    exact fun h => hl (of_decide_eq_true h).symm
  change ∃ n cs', ds.find? (·.label = l) = some n ∧ t = n.finish source cs'
  induction ds generalizing cs with
  | nil =>
      rw [finishAll, hcomments] at h
      cases h
  | cons c ds ih =>
      obtain ⟨k', l', s', ds'⟩ := c
      rw [finishAll, List.find?_append, hcomments, Option.none_or, List.find?_cons] at h
      rw [List.find?_cons]
      rw [label_finish] at h
      cases hlabel : decide ((Draft.node k' l' s' ds').label = l) with
      | true =>
          rw [hlabel] at h
          cases h
          exact ⟨_, _, rfl, rfl⟩
      | false =>
          rw [hlabel] at h
          exact ih h

end Draft

/-- The children of a source's tree are comments and trees of nodes with names that are words. -/
theorem exists_draft_of_parse? {dialect : Dialect} {text : String} {t c : Tree}
    (h : parse? dialect text = some t) (hc : c ∈ t.children) : c.kind = .comment ∨
      ∃ d : Draft, ∃ cs, d.IsSpelled text.toList ∧ c = d.finish text.toList.toArray cs := by
  obtain ⟨⟨d, p⟩, hd, ht⟩ := Option.bind_eq_some_iff.mp h
  cases ht
  have hspelled := spelled_program (reads_readGoal _ _ _) _ _ _ hd
  obtain hcomment | ⟨c', hc', cs, rfl⟩ := mem_children_finish hc
  · exact .inl hcomment
  · exact .inr ⟨c', cs, hspelled c' hc', rfl⟩

end Trellis.Syntax
