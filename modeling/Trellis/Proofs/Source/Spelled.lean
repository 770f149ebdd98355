import Trellis.Proofs.Contract.Exported
import Trellis.Proofs.Syntax.TopLevel

/-! # Names in a module

* `Source.IsSpelled` says that the names of functions that a source declares are words, and that the
  names under which it exports something are words or quoted texts.
* `Source.isSpelled_of_parse`: this holds of every text that is read as a source.
* `Source.HasDistinctNames` says that no two of its capitalised functions have one name.
  `Analysis.nodup_names` and `Analysis.eq_of_default`: then no two components have, and one of them at
  most is the default export. -/

namespace Trellis

open Syntax Syntax.Lexeme

namespace Source

/-- How the names of a source are spelled. -/
structure IsSpelled (s : Source) : Prop where
  /-- The name of a function is a word. -/
  declared : ∀ p name f, s.Declares p name f → IsWord name.toList
  /-- Something is exported under a word or a quoted text. -/
  exported : ∀ p name exported, s.Exports p (.named name exported) → IsExportName exported.toList

end Source

namespace Syntax.Draft

variable {d : Draft} {source : List Char} {cs : List Span} {n v : Tree} {k : Nat}

/-- The name of a function that a finished tree declares is a word. -/
theorem DeclaresWords.name (h : d.DeclaresWords source)
    (hk : (d.finish source.toArray cs).kind = .functionDeclaration)
    (hn : (d.finish source.toArray cs).part? .name = some n) : IsWord n.text.toList := by
  obtain ⟨n', cs', hn', rfl⟩ := exists_of_part?_finish (by decide) hn
  rw [text_finish]
  exact h.function (by rwa [kind_finish] at hk) n' hn'

/-- The name of a variable that a finished tree declares is a word. -/
theorem DeclaresWords.variable {name : String} (h : d.DeclaresWords source)
    (hk : (d.finish source.toArray cs).IsVariables)
    (hv : (d.finish source.toArray cs).parts[k]? = some v) (hname : v.NamesVariable name) :
    IsWord name.toList := by
  obtain ⟨hkind, n, hn, hidentifier, rfl⟩ := hname
  have hmem := (List.mem_filter.mp (List.mem_of_getElem? hv)).1
  obtain hcomment | ⟨v', hv', cs', rfl⟩ := mem_children_finish hmem
  · rw [hkind] at hcomment
    cases hcomment
  · obtain ⟨n', cs'', hn', rfl⟩ := exists_of_part?_finish (by decide) hn
    rw [text_finish]
    rw [Tree.IsVariables, kind_finish] at hk
    exact h.declarators hk v' hv' n' hn' (by rwa [kind_finish] at hidentifier)

/-- A part of a finished tree that is no comment is the tree of a part. -/
theorem exists_of_getElem?_parts {source : Array Char} {t : Tree}
    (h : (d.finish source cs).parts[k]? = some t) (hk : t.kind ≠ .comment) :
    ∃ c ∈ d.children, ∃ cs', t = c.finish source cs' := by
  have hmem := (List.mem_filter.mp (List.mem_of_getElem? h)).1
  exact (mem_children_finish hmem).resolve_left hk

end Syntax.Draft

namespace Tree

variable {d : Draft} {source : List Char} {cs : List Span} {q : Tree.Place} {name : String}
  {f : Tree} {exported : String}

/-- The exported declaration of a finished statement is the tree of one. -/
theorem exists_declaration (h : d.IsSpelled source) {e : Tree}
    (hown : (d.finish source.toArray cs).IsOwnExport)
    (he : (d.finish source.toArray cs).part? .declaration = some e) :
    ∃ (c : Draft) (cs' : List Span), c.DeclaresWords source ∧
      e = c.finish source.toArray cs' := by
  obtain ⟨c, cs', hc, rfl⟩ := Draft.exists_of_part?_finish (by decide) he
  have hkind := hown.1
  rw [Draft.kind_finish] at hkind
  have hlabel := List.find?_some hc
  exact ⟨c, cs', (h.exports hkind c (List.mem_of_find?_eq_some hc)).declaration
    (of_decide_eq_true hlabel), rfl⟩

/-- A comment declares no function. -/
theorem kind_ne_comment_of_declaresFunction {t : Tree} (h : t.DeclaresFunction q name f) :
    t.kind ≠ .comment := by
  intro hcomment
  have hself {e : Tree} (he : t.DeclarationOf e) : e.kind = .comment := by
    cases he with
    | bare => exact hcomment
    | exported hown _ =>
        rw [hown.1] at hcomment
        cases hcomment
  cases h with
  | declaration he hk _ =>
      rw [hself he] at hk
      cases hk
  | declarator he hv _ _ _ _ =>
      rw [IsVariables, hself he] at hv
      rcases hv with hv | hv <;> cases hv

/-- The names of the functions that a finished statement declares are words. -/
theorem isWord_of_declaresFunction (h : d.IsSpelled source)
    (hd : (d.finish source.toArray cs).DeclaresFunction q name f) : IsWord name.toList := by
  have hdeclaration {e : Tree} (he : (d.finish source.toArray cs).DeclarationOf e) :
      ∃ (c : Draft) (cs' : List Span), c.DeclaresWords source ∧
        e = c.finish source.toArray cs' := by
    cases he with
    | bare => exact ⟨d, cs, h.declares, rfl⟩
    | exported hown he => exact exists_declaration h hown he
  cases hd with
  | declaration he hk hn =>
      obtain ⟨c, cs', hc, rfl⟩ := hdeclaration he
      exact hc.name hk hn
  | declarator he hv hk hname _ _ =>
      obtain ⟨c, cs', hc, rfl⟩ := hdeclaration he
      exact hc.variable hv hk hname

/-- The names under which a finished statement exports are words or quoted texts. -/
theorem isExportName_of_exports (h : d.IsSpelled source)
    (hd : (d.finish source.toArray cs).Exports q (.named name exported)) :
    IsExportName exported.toList := by
  cases hd with
  | declaration hown he hk hn _ =>
      obtain ⟨c, cs', hc, rfl⟩ := exists_declaration h hown he
      exact .inl (hc.name hk hn)
  | declarator hown he hv hk hname =>
      obtain ⟨c, cs', hc, rfl⟩ := exists_declaration h hown he
      exact .inl (hc.variable hv hk hname)
  | @specifier c x n j k hown hd hv hc hkc hx hkx hn _ =>
      have hkind := hown.1
      rw [Draft.kind_finish] at hkind
      obtain ⟨c', hc', cs', rfl⟩ := Draft.exists_of_getElem?_parts hc (by rw [hkc]; decide)
      obtain ⟨x', hx', cs'', rfl⟩ := Draft.exists_of_getElem?_parts hx (by rw [hkx]; decide)
      rw [Draft.kind_finish] at hkc
      have hnames := (h.exports hkind c' hc').clause hkc x' hx'
      have hpart {l : Label} {m : Tree} (hl : l ≠ .none)
          (hm : (x'.finish source.toArray cs'').part? l = some m) :
          IsExportName m.text.toList := by
        obtain ⟨m', cs, hm', rfl⟩ := Draft.exists_of_part?_finish hl hm
        rw [Draft.text_finish]
        exact hnames m' (List.mem_of_find?_eq_some hm')
      unfold aliasOf
      cases halias : (x'.finish source.toArray cs'').part? .alias with
      | none => exact hpart (by decide) hn
      | some m => exact hpart (by decide) halias

end Tree

/-- The names of a text that is read as a source are spelled as names are. -/
theorem Source.isSpelled_of_parse {path : Path} {dialect : Dialect} {text : String} {s : Source}
    (h : Source.parse path dialect text = .ok s) : s.IsSpelled := by
  unfold parse at h
  split at h
  · next t ht =>
    cases h
    have hdraft {i : Nat} {u : Tree} (hu : t.parts[i]? = some u) : u.kind = .comment ∨
        ∃ d : Draft, ∃ cs, d.IsSpelled text.toList ∧ u = d.finish text.toList.toArray cs :=
      exists_draft_of_parse? ht (List.mem_filter.mp (List.mem_of_getElem? hu)).1
    refine ⟨?_, ?_⟩
    · rintro p name f ⟨i, q, u, rfl, hu, hdeclares⟩
      obtain hcomment | ⟨d, cs, hd, rfl⟩ := hdraft hu
      · exact absurd hcomment (Tree.kind_ne_comment_of_declaresFunction hdeclares)
      · exact Tree.isWord_of_declaresFunction hd hdeclares
    · rintro p name exported ⟨i, q, u, rfl, hu, hexports⟩
      obtain hcomment | ⟨d, cs, hd, rfl⟩ := hdraft hu
      · have hk := (Export.isOwnExport_of_exports hexports).1
        rw [hcomment] at hk
        cases hk
      · exact Tree.isExportName_of_exports hd hexports
  · cases h

/-! ### Names of components -/

/-- Whether the capitalised functions at the top level of a source have distinct names. -/
def Source.HasDistinctNames (s : Source) : Prop :=
  ∀ p q name f g, StartsUpper name → s.Declares p name f → s.Declares q name g → p = q

namespace Candidate

variable {s : Source}

theorem map_fst_named (s : Source) :
    ((ofSource s).map named).map Prod.fst = (ofSource s).map (·.name) := by
  rw [List.map_map]
  rfl

/-- A source whose candidates have distinct names has distinct names. -/
theorem hasDistinctNames_of_nodup (h : ((ofSource s).map (·.name)).Nodup) : s.HasDistinctNames := by
  rw [← map_fst_named] at h
  intro p q name f g hupper hf hg
  exact (enumerates_ofSource s).position_of_nodup h (a := (name, f)) (b := (name, g)) ⟨hf, hupper⟩
    ⟨hg, hupper⟩ rfl

end Candidate

namespace Analysis

variable {modules : Modules} {s : Source} {c c' : Component}

/-- The name of a component is that of a capitalised function. -/
theorem declares_of_mem (h : c ∈ components modules s) :
    ∃ p f, s.Declares p c.name f ∧ StartsUpper c.name := by
  have hname := List.mem_map_of_mem (f := (·.name)) h
  rw [map_name_components] at hname
  obtain ⟨cand, hcand, hname⟩ := List.mem_filterMap.mp hname
  rw [Candidate.reportedName?] at hname
  split at hname
  · obtain ⟨p, hdeclares, hupper⟩ :=
      (Candidate.enumerates_ofSource s).mem_iff.mp (List.mem_map_of_mem hcand)
    rw [← Option.some.inj hname]
    exact ⟨p, _, hdeclares, hupper⟩
  · cases hname

/-- If the functions of a source have distinct names, so have its components. -/
theorem nodup_names (h : s.HasDistinctNames) : ((components modules s).map (·.name)).Nodup := by
  have hcandidates : ((Candidate.ofSource s).map (·.name)).Nodup := by
    rw [← Candidate.map_fst_named]
    refine (Candidate.enumerates_ofSource s).nodup_map ?_
    rintro p q ⟨name, f⟩ ⟨_, g⟩ ⟨hf, hupper⟩ ⟨hg, -⟩ rfl
    exact h p q name f g hupper hf hg
  have hreported : (Candidate.ofSource s).filterMap (Candidate.reportedName? s) =
      ((Candidate.ofSource s).filter fun c => (Export.lookup (Export.ofSource s) c.name).isSome &&
        !c.visits.isEmpty).map (·.name) := by
    rw [← List.filterMap_eq_map, List.filterMap_filter]
    rfl
  rw [map_name_components, hreported]
  exact hcandidates.sublist (List.filter_sublist.map _)

/-- The components of a source that are its default export have one name, so they are one. -/
theorem eq_of_default (h : s.HasDistinctNames) (hc : c ∈ components modules s)
    (hc' : c' ∈ components modules s) (hk : c.exportKind = .default)
    (hk' : c'.exportKind = .default) : c = c' := by
  have hname := (Export.kind_eq_default_iff_default? (lookup_name hc)).mp hk
  have hname' := (Export.kind_eq_default_iff_default? (lookup_name hc')).mp hk'
  exact List.inj_on_of_nodup_map (nodup_names h) hc hc' (Option.some.inj (hname.symm.trans hname'))

end Analysis

end Trellis
