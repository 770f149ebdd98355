import Trellis.Batch.Run
import Trellis.Proofs.Placement.Sought
import Trellis.Proofs.Source.Spelled
import Trellis.Proofs.Suite.ImportReader

/-! # What the import of a test module binds

A test module imports the components that it tests by one declaration.

* `Suite.read?_componentImport`: what is read of this declaration if each character of the path stands
  for itself in a literal. `Suite.plain_of_read?`: otherwise the declaration does not name the path.
* `Suite.mem_bindings` and `Suite.nodup_bindings`: it binds each component once, if at most one of them
  is the default export.
* `Batch.BindsAll` says so of the components of a source, with the names of files that can be imported.
  `Batch.bindsAll`: this holds of every source whose functions have distinct names, and
  `Batch.unread_import` shows a file whose import is no declaration. -/

namespace Trellis

open Syntax Syntax.Lexeme

/-! ### The import of some components -/

namespace Suite

open Import

/-- What a component is in its module. -/
def origin (c : Component) : Origin :=
  match c.exportKind with
  | .default => .default
  | .named => .named c.exportedAs

/-- The name of a component with what it stands for. -/
def binding (c : Component) : String × Origin := (c.name, origin c)

/-- Whether the names of a component may stand in an import. -/
structure IsImportable (c : Component) : Prop where
  /-- Its name is a word. -/
  word : IsWord c.name.toList
  /-- Its name is not reserved. -/
  free : c.name ∉ reserved
  /-- It is exported under a word or a quoted text. -/
  exported : c.exportKind = .named → IsExportName c.exportedAs.toList

/-- The token of the name of an export. -/
def exportToken (name : String) : Token :=
  if IsWord name.toList then .word name else .quoted name

/-- The tokens by which a component is imported in braces. -/
def itemTokens (c : Component) : List Token :=
  if c.exportedAs = c.name then [.word c.name]
  else [exportToken c.exportedAs, .word "as", .word c.name]

/-- The tokens of some components in braces. -/
def braceTokens (cs : List Component) : List Token :=
  .mark '\x7b' :: ([.mark ','].intercalate (cs.map itemTokens) ++ [.mark '\x7d'])

/-- The component that is the default export. -/
def default? (cs : List Component) : Option Component := cs.find? (·.exportKind = .default)

/-- The components that are exported under names. -/
def named (cs : List Component) : List Component := cs.filter (·.exportKind = .named)

/-- The tokens of what is imported. -/
def clauseTokens (cs : List Component) : List Token :=
  match default? cs with
  | some c =>
    if (named cs).isEmpty then [.word c.name]
    else .word c.name :: .mark ',' :: braceTokens (named cs)
  | none => braceTokens (named cs)

/-- What is bound by the import of some components. -/
def bindings (cs : List Component) : List (String × Origin) :=
  ((default? cs).toList ++ named cs).map binding

section tokens
variable {c : Component} {cs : List Component}

theorem default?_eq_some (h : default? cs = some c) : c ∈ cs ∧ c.exportKind = .default := by
  have hkind := List.find?_some h
  exact ⟨List.mem_of_find?_eq_some h, of_decide_eq_true hkind⟩

theorem mem_named : c ∈ named cs ↔ c ∈ cs ∧ c.exportKind = .named := by
  rw [named, List.mem_filter, decide_eq_true_iff]

theorem scans_exportToken {name : String} (h : IsExportName name.toList) :
    Scans name.toList [exportToken name] := by
  unfold exportToken
  split
  · next hword => exact scans_word hword
  · next hword => exact scans_quoted (h.resolve_left hword)

theorem scans_importSpecifier (h : IsImportable c) (hk : c.exportKind = .named) :
    Scans (importSpecifier c).toList (itemTokens c) := by
  unfold importSpecifier itemTokens
  split
  · exact scans_word h.word
  · have has : Scans ("as".toList ++ ' ' :: c.name.toList) [.word "as", .word c.name] :=
      (scans_word (by decide)).then_space (scans_word h.word)
    have hall := (scans_exportToken (h.exported hk)).then_space has
    rw [String.toList_append, String.toList_append, List.append_assoc]
    exact hall

theorem scans_items (h : ∀ c ∈ cs, IsImportable c) (hk : ∀ c ∈ cs, c.exportKind = .named) :
    Scans (", ".toList.intercalate (cs.map fun c => (importSpecifier c).toList))
      ([.mark ','].intercalate (cs.map itemTokens)) := by
  induction cs with
  | nil => exact scans_nil
  | cons c cs ih =>
      rw [List.forall_mem_cons] at h hk
      have hfirst := scans_importSpecifier h.1 hk.1
      cases cs with
      | nil => simpa using hfirst
      | cons c' cs =>
          rw [List.map_cons, List.map_cons, List.map_cons, List.map_cons,
            List.intercalate_cons_cons, List.intercalate_cons_cons, List.append_assoc,
            List.append_assoc]
          have hrest := (ih h.2 hk.2).space.mark (c := ',') (by decide)
          exact hfirst.append hrest (endsWord_cons (by decide) _) (List.cons_ne_nil _ _)

theorem scans_importBraces (h : ∀ c ∈ cs, IsImportable c) (hk : ∀ c ∈ cs, c.exportKind = .named) :
    Scans (importBraces (cs.map importSpecifier)).toList (braceTokens cs) := by
  have hclosing : Scans ['\x7d'] [.mark '\x7d'] := scans_nil.mark (by decide)
  have hall := ((scans_items h hk).then_space hclosing).space.mark (c := '\x7b') (by decide)
  rw [importBraces, String.toList_append, String.toList_append, String.toList_intercalate,
    List.map_map, List.append_assoc]
  exact hall

theorem scans_importClause (h : ∀ c ∈ cs, IsImportable c) :
    Scans (importClause cs).toList (clauseTokens cs) := by
  have hnamed : Scans (importBraces ((named cs).map importSpecifier)).toList
      (braceTokens (named cs)) :=
    scans_importBraces (fun c hc => h c (mem_named.mp hc).1)
      fun c hc => (mem_named.mp hc).2
  unfold importClause clauseTokens default?
  cases hfind : cs.find? (·.exportKind = .default) with
  | none => exact hnamed
  | some c =>
      have hword := scans_word (h c (List.mem_of_find?_eq_some hfind)).word
      have hempty : ((named cs).map importSpecifier).isEmpty = (named cs).isEmpty := List.isEmpty_map
      dsimp only
      rw [← named, hempty]
      split
      · exact hword
      · have hrest := hnamed.space.mark (c := ',') (by decide)
        rw [String.toList_append, String.toList_append, List.append_assoc]
        exact hword.append hrest (endsWord_cons (by decide) _) (List.cons_ne_nil _ _)

/-- The tokens of an import up to the literal of its module. -/
theorem tokens?_componentImport (h : ∀ c ∈ cs, IsImportable c) (path : String) :
    tokens? (componentImport cs path).toList =
      (tokens? ('\'' :: (path.toList ++ ['\'', ';']))).map fun ts =>
        .word "import" :: (clauseTokens cs ++ .word "from" :: ts) := by
  have hclause := (scans_word (w := "import") (by decide)).then_space (scans_importClause h)
  have hall := hclause.then_space (scans_word (w := "from") (by decide))
  have hline : (componentImport cs path).toList = ("import".toList ++ ' ' ::
      (importClause cs).toList) ++ ' ' :: "from".toList ++
        ' ' :: '\'' :: (path.toList ++ ['\'', ';']) := by
    simp [componentImport]
  rw [hline, hall _ (endsWord_cons (by decide) _), tokens?_space (by decide)]
  simp

/-! #### What is read of an import -/

theorem item?_itemTokens (h : IsImportable c) (hk : c.exportKind = .named) :
    item? (itemTokens c) = some (binding c) := by
  have hbinding (o : Origin) : binding? c.name o = some (c.name, o) :=
    if_neg (by simpa using h.free)
  unfold itemTokens
  split
  · next hown =>
    rw [item?, hbinding, binding, origin, hk, hown]
  · have hexported : (exportToken c.exportedAs).exported? = some c.exportedAs := by
      unfold exportToken
      split <;> rfl
    rw [item?, if_pos rfl, hexported, Option.bind_some, hbinding, binding, origin, hk]

theorem mapM_item? (h : ∀ c ∈ cs, IsImportable c) (hk : ∀ c ∈ cs, c.exportKind = .named) :
    (cs.map itemTokens).mapM item? = some (cs.map binding) := by
  induction cs with
  | nil => rfl
  | cons c cs ih =>
      rw [List.forall_mem_cons] at h hk
      rw [List.map_cons, List.mapM_cons, item?_itemTokens h.1 hk.1, ih h.2 hk.2]
      rfl

/-- An item holds something, but no comma. -/
theorem itemTokens_spec (c : Component) : itemTokens c ≠ [] ∧ Token.mark ',' ∉ itemTokens c := by
  unfold itemTokens exportToken
  split
  · simp
  · split <;> simp

theorem braces?_braceTokens (h : ∀ c ∈ cs, IsImportable c) (hk : ∀ c ∈ cs, c.exportKind = .named) :
    braces? (braceTokens cs).tail = some (cs.map binding) := by
  rw [braceTokens, List.tail_cons, braces?, if_pos List.getLast?_concat, List.dropLast_concat]
  cases cs with
  | nil => rfl
  | cons c cs =>
      have hne : [Token.mark ','].intercalate ((c :: cs).map itemTokens) ≠ [] := by
        cases cs with
        | nil => simpa using (itemTokens_spec c).1
        | cons c' cs => simp [List.intercalate_cons_cons]
      have hcomma : ∀ l ∈ (c :: cs).map itemTokens, Token.mark ',' ∉ l := by
        rintro _ hl
        obtain ⟨c, -, rfl⟩ := List.mem_map.mp hl
        exact (itemTokens_spec c).2
      rw [List.isEmpty_eq_false_iff.mpr hne, if_neg Bool.false_ne_true,
        List.splitOn_intercalate _ hcomma (by simp), mapM_item? h hk]

/-- The names that the tokens of an import bind. -/
theorem clause?_clauseTokens (h : ∀ c ∈ cs, IsImportable c) :
    clause? (clauseTokens cs) = some (bindings cs) := by
  have hbraces : braces? (braceTokens (named cs)).tail = some ((named cs).map binding) :=
    braces?_braceTokens (fun c hc => h c (mem_named.mp hc).1)
      fun c hc => (mem_named.mp hc).2
  rw [braceTokens, List.tail_cons] at hbraces
  unfold clauseTokens bindings
  cases hfind : default? cs with
  | none =>
      rw [Option.toList_none, List.nil_append, ← hbraces]
      rfl
  | some c =>
      obtain ⟨hc, hk⟩ := default?_eq_some hfind
      have hbinding : binding? c.name .default = some (binding c) := by
        rw [binding?, if_neg (by simpa using (h c hc).free), binding, origin, hk]
      dsimp only
      split
      · next hempty =>
        rw [clause?, hbinding, List.isEmpty_iff.mp hempty]
        rfl
      · rw [braceTokens, clause?, if_pos ⟨rfl, rfl⟩, hbinding, hbraces]
        rfl

/-- What is read of an import if each character of its path stands for itself. -/
theorem read?_componentImport (h : ∀ c ∈ cs, IsImportable c) {path : String}
    (hpath : ∀ c ∈ path.toList, Expression.IsPlain '\'' c) :
    ∃ d, read? (componentImport cs path) = some d ∧ d.bindings = bindings cs ∧ d.Names path := by
  refine ⟨⟨bindings cs, String.ofList ('\'' :: (path.toList ++ ['\'']))⟩, ?_, rfl, ?_⟩
  · rw [read?, tokens?_componentImport h, tokens?_of_plain hpath, Option.map_some, Option.bind_some]
    exact declaration?_eq_some_iff.mpr ⟨_, clause?_clauseTokens h, by simp⟩
  · rw [Declaration.Names, String.toList_ofList]
    exact (text?_quoted_iff (.inl rfl)).mpr hpath

/-- An import names its path only if each character of it stands for itself. -/
theorem plain_of_read? (h : ∀ c ∈ cs, IsImportable c) {path : String} {d : Declaration}
    (hd : read? (componentImport cs path) = some d) (hnames : d.Names path) :
    ∀ c ∈ path.toList, Expression.IsPlain '\'' c := by
  rw [read?, tokens?_componentImport h] at hd
  obtain ⟨ts, hts, hd⟩ := Option.bind_eq_some_iff.mp hd
  obtain ⟨us, hus, rfl⟩ := Option.map_eq_some_iff.mp hts
  exact plain_of_declaration? hus hd hnames

/-! #### What is bound -/

/-- What is bound is what the components are. -/
theorem mem_bindings (hdefault : ∀ c ∈ cs, ∀ c' ∈ cs, c.exportKind = .default →
    c'.exportKind = .default → c = c') {x : String × Origin} :
    x ∈ bindings cs ↔ ∃ c ∈ cs, binding c = x := by
  rw [bindings, List.mem_map]
  refine exists_congr fun c => and_congr_left fun _ => ?_
  rw [List.mem_append, Option.mem_toList, mem_named]
  constructor
  · rintro (hfind | ⟨hc, -⟩)
    · exact (default?_eq_some hfind).1
    · exact hc
  · intro hc
    cases hk : c.exportKind with
    | named => exact .inr ⟨hc, rfl⟩
    | default =>
        have hsome : (default? cs).isSome = true :=
          List.find?_isSome.mpr ⟨c, hc, decide_eq_true hk⟩
        obtain ⟨c', hfind⟩ := Option.isSome_iff_exists.mp hsome
        obtain ⟨hc', hk'⟩ := default?_eq_some hfind
        rw [hdefault c hc c' hc' hk hk']
        exact .inl hfind

/-- Components with distinct names are bound to distinct names. -/
theorem nodup_bindings (h : (cs.map (·.name)).Nodup) : ((bindings cs).map Prod.fst).Nodup := by
  have hnames : (bindings cs).map Prod.fst = ((default? cs).toList ++ named cs).map (·.name) := by
    rw [bindings, List.map_map]
    rfl
  have hmem {c : Component} (hc : c ∈ (default? cs).toList ++ named cs) : c ∈ cs := by
    rcases List.mem_append.mp hc with hc | hc
    · exact (default?_eq_some (Option.mem_toList.mp hc)).1
    · exact (mem_named.mp hc).1
  have hnamed : (named cs).Nodup := h.of_map.filter _
  -- the default is not among the named ones, so only their names are left to compare
  have hdistinct : ((default? cs).toList ++ named cs).Nodup := by
    cases hfind : default? cs with
    | none => exact hnamed
    | some c =>
        refine List.nodup_cons.mpr ⟨fun hc => ?_, hnamed⟩
        have hk := (mem_named.mp hc).2
        rw [(default?_eq_some hfind).2] at hk
        cases hk
  rw [hnames]
  exact hdistinct.map_on fun c hc c' hc' => List.inj_on_of_nodup_map h (hmem hc) (hmem hc')

end tokens

end Suite

/-! ### The components of a source -/

/-- The names of a component may stand in an import. -/
theorem Analysis.isImportable {modules : Modules} {s : Source} {c : Component} (hs : s.IsSpelled)
    (hc : c ∈ components modules s) : Suite.IsImportable c := by
  obtain ⟨p, f, hdeclares, hupper⟩ := declares_of_mem hc
  refine ⟨hs.declared _ _ _ hdeclares, fun hreserved => ?_, fun hk => ?_⟩
  · -- no reserved word begins with a capital
    have hlower : ∀ w ∈ Import.reserved, Candidate.isComponentName w = false := by decide
    have hname := hlower _ hreserved
    rw [Candidate.isComponentName_iff.mpr hupper] at hname
    cases hname
  · obtain ⟨q, hexports, -⟩ := Export.exists_first_of_named (hk ▸ lookup_name hc)
    exact hs.exported _ _ _ hexports

/-- Each character of the path by which a source is imported stands for itself in a literal if those of
the name of its file do. -/
theorem Placement.plain_importPath_iff (policy : Policy) (source : Path) :
    (∀ c ∈ (policy.importPath source).toList, Expression.IsPlain '\'' c) ↔
      ∀ c ∈ source.stem.toList, Expression.IsPlain '\'' c := by
  have hup (n : Nat) : ∀ c ∈ (String.join (List.replicate n "../")).toList, c = '.' ∨ c = '/' := by
    induction n with
    | zero => simp
    | succ n ih =>
        rw [List.replicate_succ, String.join_cons, String.toList_append, List.forall_mem_append]
        exact ⟨by simp, ih⟩
  have hway : ∀ c ∈ policy.wayBack.toList, Expression.IsPlain '\'' c := by
    intro c hc
    have hmark : c = '.' ∨ c = '/' := by
      rw [Policy.wayBack] at hc
      split at hc
      · simpa using hc
      · exact hup _ c hc
    rcases hmark with rfl | rfl <;> exact ⟨by decide, by decide, by decide, by decide⟩
  have himport : policy.importPath source = policy.wayBack ++ source.stem := rfl
  rw [himport, String.toList_append, List.forall_mem_append, and_iff_right hway]

/-- What is read of a text, if it is a source. -/
theorem Source.ok_of_toOption {r : Except LoadFault Source} {s : Source}
    (h : r.toOption = some s) : r = .ok s := by
  cases r with
  | ok _ =>
      cases h
      rfl
  | error _ => cases h

namespace Batch

variable {μ : Type} {b : Batch μ} {p : Path} {s : Source}

/-- What the import of the components of a source binds. -/
structure BindsAll (b : Batch μ) (p : Path) (s : Source) (cs : List Component) : Prop where
  /-- The import stands in the module. -/
  imported : ∀ gs, Suite.componentImport cs (b.policy.importPath p) ∈
    Suite.imports b.config.generation.suiteSettings (b.suiteTarget p s) cs gs
  /-- One component at most is the default export. -/
  oneDefault : ∀ c ∈ cs, ∀ c' ∈ cs, c.exportKind = .default → c'.exportKind = .default → c = c'
  /-- The import is a declaration that names the path of the source, unless a single quote, a backslash
  or a line break stands in the name of the file. -/
  names_iff : (∃ d, Import.read? (Suite.componentImport cs (b.policy.importPath p)) = some d ∧
    d.Names (b.policy.importPath p)) ↔ ∀ c ∈ p.stem.toList, Expression.IsPlain '\'' c
  /-- Then it binds the name of each component once, to what the component is in its module. -/
  binds : ∀ d, Import.read? (Suite.componentImport cs (b.policy.importPath p)) = some d →
    d.Names (b.policy.importPath p) → (d.bindings.map Prod.fst).Nodup ∧
      ∀ name origin, (name, origin) ∈ d.bindings ↔
        ∃ c ∈ cs, c.name = name ∧ Suite.origin c = origin

/-- The import of the components of a source whose functions have distinct names binds them all. -/
theorem bindsAll (b : Batch μ) {dialect : Dialect} {text : String}
    (hs : Source.parse p dialect text = .ok s) (h : s.HasDistinctNames) (modules : Modules) :
    b.BindsAll p s (Analysis.components modules s) := by
  have himportable (c : Component) (hc : c ∈ Analysis.components modules s) :
      Suite.IsImportable c := Analysis.isImportable (Source.isSpelled_of_parse hs) hc
  have hdefault : ∀ c ∈ Analysis.components modules s, ∀ c' ∈ Analysis.components modules s,
      c.exportKind = .default → c'.exportKind = .default → c = c' :=
    fun c hc c' hc' => Analysis.eq_of_default h hc hc'
  refine ⟨fun gs => List.mem_append_right _ (List.mem_singleton_self _), hdefault, ?_, ?_⟩
  · rw [← Placement.plain_importPath_iff]
    constructor
    · rintro ⟨d, hd, hnames⟩
      exact Suite.plain_of_read? himportable hd hnames
    · intro hplain
      obtain ⟨d, hd, -, hnames⟩ := Suite.read?_componentImport himportable hplain
      exact ⟨d, hd, hnames⟩
  · intro d hd hnames
    obtain ⟨d', hd', hbindings, -⟩ := Suite.read?_componentImport himportable
      (Suite.plain_of_read? himportable hd hnames)
    obtain rfl : d' = d := Option.some.inj (hd'.symm.trans hd)
    rw [hbindings]
    refine ⟨Suite.nodup_bindings (Analysis.nodup_names h), fun name origin => ?_⟩
    rw [Suite.mem_bindings hdefault]
    simp only [Suite.binding, Prod.mk.injEq]

/-! #### A default and an alias, and a file that is not imported -/

namespace Mixed

/-- Settings with a test directory. -/
def apart : Batch Unit :=
  ⟨⟨"/p"⟩, { Config.empty with
    generation := { Config.Generation.empty with testDirectory := some "__tests__" } }, none, false⟩

/-- Settings without one. -/
def beside : Batch Unit := ⟨⟨"/p"⟩, Config.empty, none, false⟩

/-- A module with a default export, a named one, and one with a quoted name. -/
def text : String :=
  "export const A=()=><p/>;const B=()=><p/>;export \x7bB as 'b-c'\x7d;\n" ++
    "export default function C()\x7breturn <p/>\x7d"

end Mixed

theorem bindsAll_mixed : ∃ s, Source.parse ⟨"src/A.tsx"⟩ .tsx Mixed.text = .ok s ∧
    s.HasDistinctNames ∧ Mixed.apart.BindsAll ⟨"src/A.tsx"⟩ s (Analysis.components .none s) ∧
    Suite.componentImport (Analysis.components .none s)
        (Mixed.apart.policy.importPath ⟨"src/A.tsx"⟩) =
      "import C, \x7b A, 'b-c' as B \x7d from '../A';" ∧
    Import.read? "import C, \x7b A, 'b-c' as B \x7d from '../A';" =
      some ⟨[("C", .default), ("A", .named "A"), ("B", .named "'b-c'")], "'../A'"⟩ := by
  have h : ∃ s ∈ (Source.parse ⟨"src/A.tsx"⟩ .tsx Mixed.text).toOption,
      ((Candidate.ofSource s).map (·.name)).Nodup ∧
      Suite.componentImport (Analysis.components .none s)
        (Mixed.apart.policy.importPath ⟨"src/A.tsx"⟩) =
          "import C, \x7b A, 'b-c' as B \x7d from '../A';" := by decide +kernel
  obtain ⟨s, hs, hnames, hline⟩ := h
  have hparse := Source.ok_of_toOption hs
  have hdistinct := Candidate.hasDistinctNames_of_nodup hnames
  exact ⟨s, hparse, hdistinct, bindsAll Mixed.apart hparse hdistinct .none, hline,
    by decide +kernel⟩

/-- A quote in the name of a file ends the literal of its path. -/
theorem unread_import : ∃ s, Source.parse ⟨"It's.tsx"⟩ .tsx
      "export const A = () => <p>a</p>;\n" = .ok s ∧ s.HasDistinctNames ∧
    Suite.componentImport (Analysis.components .none s)
        (Mixed.beside.policy.importPath ⟨"It's.tsx"⟩) =
      "import \x7b A \x7d from './It's';" ∧
    Import.read? "import \x7b A \x7d from './It's';" = none := by
  have h : ∃ s ∈ (Source.parse ⟨"It's.tsx"⟩ .tsx "export const A = () => <p>a</p>;\n").toOption,
      ((Candidate.ofSource s).map (·.name)).Nodup ∧
      Suite.componentImport (Analysis.components .none s)
        (Mixed.beside.policy.importPath ⟨"It's.tsx"⟩) =
          "import \x7b A \x7d from './It's';" := by decide +kernel
  obtain ⟨s, hs, hnames, hline⟩ := h
  exact ⟨s, Source.ok_of_toOption hs, Candidate.hasDistinctNames_of_nodup hnames, hline,
    by decide +kernel⟩

end Batch

end Trellis
