import Trellis.Contract.TypeMember
import Trellis.Proofs.Store.Walk
import Trellis.Source.Library

/-! # Names in a source

Where the texts of a source's tree come from.

* `Tree.All` says of every text in a tree that it has some property. `Syntax.parse?_all`: every text
  in the tree of a source is a part of the source.
* `Source.ReadIn` says that a source was read in a store. The modules that a store finds are read
  in it (`Store.readIn_of_lookup`), and a name that such a source imports is a part of its text
  (`Source.ReadIn.infix_of_import`). -/

namespace Trellis

open Syntax

/-! ### What is computed of something read -/

section reading
variable {ε α β : Type} {r : Except ε α}

theorem exists_ok_of_map {f : α → β} {y : β} (h : r.toOption.map f = some y) :
    ∃ x, r = .ok x ∧ f x = y := by
  cases r with
  | error e => cases h
  | ok x => exact ⟨x, rfl, Option.some.inj h⟩

theorem exists_ok_of_any {f : α → Bool} (h : r.toOption.any f = true) :
    ∃ x, r = .ok x ∧ f x = true := by
  cases r with
  | error e => cases h
  | ok x => exact ⟨x, rfl, h⟩

end reading

/-! ### Texts in trees -/

namespace Tree

mutual

/-- Whether all texts in a tree have a property. -/
def All (P : String → Prop) : Tree → Prop
  | .node _ _ text _ ts => P text ∧ AllOf P ts

/-- Whether all texts in some trees have a property. -/
def AllOf (P : String → Prop) : List Tree → Prop
  | [] => True
  | t :: ts => All P t ∧ AllOf P ts

end

variable {P : String → Prop}

theorem allOf_iff {ts : List Tree} : AllOf P ts ↔ ∀ t ∈ ts, All P t := by
  induction ts with
  | nil => simp [AllOf]
  | cons t ts ih => simp [AllOf, ih]

mutual

instance decidableAll [DecidablePred P] : (t : Tree) → Decidable (All P t)
  | .node _ _ text _ ts =>
    have := decidableAllOf ts
    inferInstanceAs (Decidable (P text ∧ AllOf P ts))

instance decidableAllOf [DecidablePred P] : (ts : List Tree) → Decidable (AllOf P ts)
  | [] => .isTrue trivial
  | t :: ts =>
    have := decidableAll t
    have := decidableAllOf ts
    inferInstanceAs (Decidable (All P t ∧ AllOf P ts))

end

theorem All.text {t : Tree} (h : All P t) : P t.text := by
  cases t
  rw [All] at h
  exact h.1

theorem All.of_mem {t child : Tree} (h : All P t) (hc : child ∈ t.children) : All P child := by
  cases t
  rw [All] at h
  exact allOf_iff.mp h.2 child hc

theorem All.of_mem_parts {t child : Tree} (h : All P t) (hc : child ∈ t.parts) : All P child :=
  h.of_mem (List.mem_filter.mp hc).1

theorem All.of_part? {t child : Tree} {l : Label} (h : All P t) (hc : t.part? l = some child) :
    All P child :=
  h.of_mem (List.mem_of_find?_eq_some hc)

end Tree

namespace Syntax

theorem Draft.infix_slice (source : Array Char) (s : Span) :
    (Draft.slice source s).toList <:+: source.toList := by
  rw [slice, String.toList_ofList, Array.toList_extract]
  exact (List.take_prefix _ _).isInfix.trans (List.drop_suffix _ _).isInfix

theorem Draft.all_comments (source : Array Char) (comments : List Span) :
    Tree.AllOf (fun x => x.toList <:+: source.toList) (comments.map (commentTree source)) := by
  rw [Tree.allOf_iff]
  intro t ht
  obtain ⟨s, _, rfl⟩ := List.mem_map.mp ht
  rw [commentTree, Tree.All]
  exact ⟨infix_slice source s, trivial⟩

mutual

/-- The texts of a finished tree are cut out of the source. -/
theorem Draft.all_finish (source : Array Char) (comments : List Span) (d : Draft) :
    Tree.All (fun x => x.toList <:+: source.toList) (d.finish source comments) := by
  obtain ⟨k, l, s, ds⟩ := d
  rw [finish, Tree.All]
  exact ⟨infix_slice source s, Draft.allOf_finishAll source comments ds⟩

theorem Draft.allOf_finishAll (source : Array Char) (comments : List Span) (ds : List Draft) :
    Tree.AllOf (fun x => x.toList <:+: source.toList) (finishAll source comments ds) := by
  cases ds with
  | nil =>
      rw [finishAll]
      exact all_comments source comments
  | cons d ds =>
      obtain ⟨k, l, s, children⟩ := d
      rw [finishAll, Tree.allOf_iff]
      intro t ht
      rcases List.mem_append.mp ht with ht | ht
      · exact Tree.allOf_iff.mp (all_comments source _) t ht
      · rcases List.mem_cons.mp ht with rfl | ht
        · exact Draft.all_finish source _ (.node k l s children)
        · exact Tree.allOf_iff.mp (Draft.allOf_finishAll source _ ds) t ht

end

/-- Every text in the tree of a source is a part of the source. -/
theorem parse?_all {dialect : Dialect} {source : String} {t : Tree}
    (h : parse? dialect source = some t) :
    Tree.All (fun x => x.toList <:+: source.toList) t := by
  unfold parse? at h
  obtain ⟨⟨d, p⟩, _, h⟩ := Option.bind_eq_some_iff.mp h
  cases h
  exact Draft.all_finish source.toList.toArray p.comments.reverse d

end Syntax

/-! ### Sources in a store -/

namespace Store

theorem readText_ok_iff {s : Store} {p : Path} {t : String} :
    s.readText p = .ok t ↔ s.read p = .ok (.text t) := by
  unfold readText
  rcases s.read p with e | c
  · simp [bind, Except.bind]
  · cases c <;> simp [bind, Except.bind, pure, Except.pure, throw, throwThe, MonadExceptOf.throw]

theorem isFile_iff {s : Store} {p : Path} :
    s.isFile p = true ↔ ∃ place c, s.locate true p = .ok (.at place (.file c)) := by
  unfold isFile entry?
  rcases s.locate true p with e | ⟨place, e⟩ | ⟨directory, name⟩
  · simp
  · cases e <;> simp
  · simp

/-- A file that is read is among the entries. -/
theorem exists_entry_of_read {s : Store} {p : Path} {c : Content} (h : s.read p = .ok c) :
    ∃ e ∈ s.entries, e.2 = .file c := by
  obtain ⟨place, hl⟩ := read_ok_iff.mp h
  have hget := (locate_ok_iff.mp hl).2.get?_of_at (by simp)
  have hplace : place ≠ [] := (locate_ok_iff.mp hl).2.ne_nil (.file place c)
  exact ⟨(place, .file c), mem_entries_of_get? hplace hget, rfl⟩

end Store

namespace Source

/-- Whether a source was read in a store: its text is that of a file, and its tree that of the
text. -/
structure ReadIn (s : Store) (m : Source) : Prop where
  /-- The text is that of a file. -/
  file : ∃ e ∈ s.entries, e.2 = .file (.text m.text)
  /-- The tree is that of the text. -/
  parsed : parse? m.dialect m.text = some m.tree
  /-- The path can be followed. -/
  path : Store.IsPath m.path

variable {s : Store} {p : Path} {m : Source}

theorem parse_ok {d : Dialect} {t : String} (h : parse p d t = .ok m) :
    m.path = p ∧ m.text = t ∧ parse? d t = some m.tree ∧ m.dialect = d := by
  unfold parse at h
  split at h
  · rename_i tree htree
    cases h
    exact ⟨rfl, rfl, htree, rfl⟩
  · cases h

theorem textAt_ok {d d' : Dialect} {t : String} (h : textAt s p d = .ok (d', t)) :
    d' = d ∧ s.read p = .ok (.text t) := by
  unfold textAt at h
  split at h
  · split at h
    · rename_i hr
      cases h
      exact ⟨rfl, Store.readText_ok_iff.mp hr⟩
    · cases h
  · cases h

theorem readIn_of_textAt {d d' : Dialect} {t : String} (ht : textAt s p d = .ok (d', t))
    (hp : parse p d' t = .ok m) : m.ReadIn s := by
  obtain ⟨_, hread⟩ := textAt_ok ht
  obtain ⟨hpath, htext, htree, hdialect⟩ := parse_ok hp
  obtain ⟨place, hl⟩ := Store.read_ok_iff.mp hread
  refine ⟨?_, ?_, ?_⟩
  · rw [htext]
    exact Store.exists_entry_of_read hread
  · rw [hdialect, htext, htree]
  · rw [hpath]
    exact (Store.locate_ok_iff.mp hl).1

theorem readIn_of_loadComponent (h : loadComponent s p = .ok m) : m.ReadIn s := by
  unfold loadComponent at h
  cases hd : componentDialectOf p with
  | error e =>
      rw [hd] at h
      cases h
  | ok d =>
      rw [hd] at h
      cases ht : textAt s p d with
      | error e =>
          simp only [bind, Except.bind, ht] at h
          cases h
      | ok t =>
          simp only [bind, Except.bind, ht] at h
          exact readIn_of_textAt ht h

theorem readIn_of_load (h : load s p = .ok m) : m.ReadIn s := by
  unfold load at h
  cases hd : dialectOf p with
  | error e =>
      rw [hd] at h
      cases h
  | ok d =>
      rw [hd] at h
      cases ht : textAt s p d with
      | error e =>
          simp only [bind, Except.bind, ht] at h
          cases h
      | ok t =>
          simp only [bind, Except.bind, ht] at h
          exact readIn_of_textAt ht h

end Source

/-- The modules that a store finds are read in it. -/
theorem Store.readIn_of_lookup {s : Store} {source : Path} {specifier : String} {m : Source}
    (h : s.lookup source specifier = .found m) : m.ReadIn s := by
  unfold lookup at h
  split at h
  · cases h
  · split at h
    · rename_i hload
      cases h
      exact Source.readIn_of_load hload
    · split at h <;> cases h

/-! ### Imported names -/

namespace TypeMember

/-- An imported name is a text in the tree. -/
theorem exists_name_of_importedBy {P : String → Prop} {name specifier imported : String} {t : Tree}
    (ht : t.All P) (h : importedBy? name t = some (specifier, imported)) : P imported := by
  unfold importedBy? at h
  split at h
  · obtain ⟨source, _, h⟩ := Option.bind_eq_some_iff.mp h
    obtain ⟨spec, hspec, h⟩ := Option.bind_eq_some_iff.mp h
    obtain ⟨n, hn, h⟩ := Option.bind_eq_some_iff.mp h
    cases h
    obtain ⟨clause, hclause, hspec⟩ := List.mem_flatMap.mp (List.mem_of_find?_eq_some hspec)
    obtain ⟨named, hnamed, hspec⟩ := List.mem_flatMap.mp hspec
    have hc := ht.of_mem_parts (List.mem_filter.mp hclause).1
    have hn' := hc.of_mem_parts (List.mem_filter.mp hnamed).1
    exact ((hn'.of_mem_parts (List.mem_filter.mp hspec).1).of_part? hn).text
  · cases h

end TypeMember

/-- A name that a source imports is a part of its text. -/
theorem Source.ReadIn.infix_of_import {s : Store} {m : Source} (h : m.ReadIn s)
    {name specifier imported : String}
    (hi : TypeMember.import? m name = some (specifier, imported)) :
    imported.toList <:+: m.text.toList := by
  unfold TypeMember.import? at hi
  obtain ⟨t, ht, hi⟩ := List.exists_of_findSome?_eq_some hi
  exact TypeMember.exists_name_of_importedBy ((parse?_all h.parsed).of_mem_parts ht) hi

end Trellis
