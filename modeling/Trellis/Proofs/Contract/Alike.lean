import Trellis.Proofs.Contract.Imported
import Trellis.Proofs.Store.Grown

/-! # Sources that are seen alike

When a source is the same to two stores, with all that is looked at for its imports.

* `Store.LooksAt` are the paths that are looked at for a source: its own, and those tried for its
  imports and for the imports of the modules that it imports.
* `Store.SeesAlike` says that all of them are read alike in two stores. `SeesAlike.components_eq`:
  then the source has the same components in both. -/

namespace Trellis

/-- Whether a path is tried for an import of a source, or of a module that it imports, also through
others. -/
def Source.TriesFor (s : Store) (source : Source) (q : Path) : Prop :=
  ∃ m, source.Imports s.modules m ∧ ∃ name specifier imported,
    TypeMember.import? m name = some (specifier, imported) ∧ s.Tries m.path specifier q

namespace Store

/-- Whether a path is looked at for a source: its own, or one that is tried for an import. -/
def LooksAt (s : Store) (p q : Path) : Prop :=
  q = p ∨ ∃ source, Source.loadComponent s p = .ok source ∧ source.TriesFor s q

/-- Whether a source is seen alike in two stores: all that is looked at for it is read alike. -/
def SeesAlike (s t : Store) (p : Path) : Prop := ∀ q, s.LooksAt p q → s.ReadsAlike t q

namespace SeesAlike

variable {s t : Store} {p : Path} {source : Source}

/-- The source is read as the same. -/
theorem loadComponent_eq (h : s.SeesAlike t p) :
    Source.loadComponent t p = Source.loadComponent s p :=
  (h p (.inl rfl)).loadComponent_eq

theorem findsAlike (h : s.SeesAlike t p) (hs : Source.loadComponent s p = .ok source) :
    s.FindsAlike t source := by
  refine ⟨⟨Source.readIn_of_loadComponent hs, Source.readIn_of_loadComponent (p := p) ?_⟩, ?_⟩
  · rw [h.loadComponent_eq]
    exact hs
  · intro m hm name specifier imported himport
    exact lookup_congr fun q hq =>
      h q (.inr ⟨source, hs, m, hm, name, specifier, imported, himport, hq⟩)

/-- The source imports nothing else. -/
theorem imports (h : s.SeesAlike t p) (hs : Source.loadComponent s p = .ok source) {m : Source}
    (hm : source.Imports t.modules m) : source.Imports s.modules m := by
  induction hm with
  | self => exact .self
  | step _ himport hfound ih =>
      refine .step ih himport ?_
      rw [← hfound]
      exact ((h.findsAlike hs).lookup_eq _ ih _ _ _ himport).symm

/-- Nothing else is looked at for the source. -/
theorem looksAt (h : s.SeesAlike t p) {q : Path} (hq : t.LooksAt p q) : s.LooksAt p q := by
  rcases hq with rfl | ⟨source, hs, m, hm, name, specifier, imported, himport, hq⟩
  · exact .inl rfl
  · rw [h.loadComponent_eq] at hs
    have hm' := h.imports hs hm
    refine .inr ⟨source, hs, m, hm', name, specifier, imported, himport, ?_⟩
    exact tries_congr (fun r hr =>
      h r (.inr ⟨source, hs, m, hm', name, specifier, imported, himport, hr⟩)) hq

/-- The source has the same components. -/
theorem components_eq (h : s.SeesAlike t p) (hs : Source.loadComponent s p = .ok source) :
    Analysis.components t.modules source = Analysis.components s.modules source :=
  Analysis.components_congr (h.findsAlike hs)

end SeesAlike

/-- For a source without specifiers only its own path is looked at. -/
theorem eq_of_looksAt {s : Store} {p q : Path} (h : s.LooksAt p q)
    (hnil : ∀ source, Source.loadComponent s p = .ok source → source.specifiers = []) : q = p := by
  rcases h with h | ⟨source, hs, m, hm, name, specifier, imported, himport, _⟩
  · exact h
  · exact absurd himport (hm.not_import (hnil source hs))

end Store

end Trellis
