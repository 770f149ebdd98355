import Trellis.Proofs.Contract.Resolution

/-! # Nested names

How deep names are nested when a type of a source in a store is resolved.

* `Source.Holds` says that a type stands in a source.
* `Resolver.Nested` is what the chain of a call is: different names, each of a module that is imported.
* `Resolver.resolve_nests`: the resolution of a type ends, without two names in a chain that are in the
  set under the same path. If different paths lead to different files, no declaration is resolved twice
  in a chain, and there are no more names in it than declarations.
* `Resolver.declaration_nests_twice`: where two paths lead to one file, a declaration may be resolved
  twice. -/

namespace Trellis

open Syntax TypeMember

/-- Whether a type stands in a source: its texts are parts of the source. -/
def Source.Holds (s : Source) (type : Tree) : Prop :=
  type.All fun x => x.toList <:+: s.text.toList

namespace Source

variable {st : Store} {s m : Source}

/-- The types of a declaration stand in the source. -/
theorem ReadIn.holds_of_declaration (hs : s.ReadIn st) {name : String} {d t : Tree}
    (hd : declaration? s name = some d) (ht : t ∈ Expansion.typesOf d) : s.Holds t := by
  obtain ⟨statement, hmem, hd⟩ := List.exists_of_findSome?_eq_some hd
  have hstatement : s.Holds statement := (parse?_all hs.parsed).of_mem_parts hmem
  have hdeclaration : s.Holds d := by
    obtain ⟨hd, _⟩ := Option.filter_eq_some_iff.mp hd
    unfold exported? at hd
    split at hd
    · exact hstatement.of_part? hd
    · cases hd
      exact hstatement
  unfold Expansion.typesOf at ht
  split at ht
  · obtain ⟨clause, hclause, ht⟩ := List.mem_flatMap.mp ht
    exact (hdeclaration.of_mem_parts (List.mem_filter.mp hclause).1).of_mem_parts ht
  · exact hdeclaration.of_part? (Option.mem_toList.mp ht)

theorem ReadIn.of_imports (hs : s.ReadIn st) (hm : s.Imports st.modules m) : m.ReadIn st := by
  cases hm with
  | self => exact hs
  | step _ _ hfound => exact Store.readIn_of_lookup hfound

end Source

namespace Resolver

open Expansion (placeOf linkOf typesOf ofType)

/-! ### Chains of nested names -/

/-- A name as a link. -/
def Key.link (k : Key) : Nat × List Char := (Store.pathCode k.path, k.name.toList)

variable {st : Store} {s m : Source} {chain : List Key} {name : String}

/-- What a chain of nested names is: different names, each of a module that a source imports, and each
in the set. -/
structure Nested (st : Store) (s : Source) (chain : List Key) : Prop where
  /-- The names are different. -/
  nodup : (chain.map Key.place).Nodup
  /-- They are links, each of a name in the set. -/
  links : Expansion.Chain st.links (chain.map Key.place) (chain.map Key.link)
  /-- Each is of a module that the source imports. -/
  imported : ∀ k ∈ chain, ∃ m, s.Imports st.modules m ∧ m.path = k.path

namespace Nested

theorem nil : Nested st s [] :=
  ⟨List.nodup_nil, ⟨List.nodup_nil, nofun, nofun⟩, nofun⟩

theorem cons (h : Nested st s chain) (hm : s.Imports st.modules m)
    (hl : linkOf m name ∈ st.links) (hnew : placeOf m name ∉ chain.map Key.place) :
    Nested st s (⟨m.path, name⟩ :: chain) := by
  refine ⟨List.nodup_cons.mpr ⟨hnew, h.nodup⟩, h.links.cons hl hnew, fun k hk => ?_⟩
  rcases List.mem_cons.mp hk with rfl | hk
  · exact ⟨m, hm, rfl⟩
  · exact h.imported k hk

theorem length_le (h : Nested st s chain) : chain.length ≤ st.links.card := by
  have hlen := h.links.length_le
  rwa [List.length_map] at hlen

end Nested

/-- Chains are as they should be, and the budget is not exhausted. -/
def nests (st : Store) (s : Source) : Terms :=
  ⟨fun _ => True, fun c => Nested st s c.chain, False⟩

theorem fits_true (s : Source) : Fits s (fun _ _ _ => True) fun _ _ _ => True :=
  ⟨fun _ => trivial, fun _ _ _ => trivial⟩

/-- A name is resolved within a budget of more than the links that are not in the chain yet. -/
theorem named_nests (hs : s.ReadIn st) (budget depth : Nat) (hm : s.Imports st.modules m)
    (hl : linkOf m name ∈ st.links) (hchain : Nested st s chain)
    (hbudget : st.links.card < budget + chain.length) :
    Meets (nests st s) (chain.map Key.place)
      (named st.modules.lookup budget depth chain m name) fun _ => True := by
  induction budget generalizing depth chain m name with
  | zero =>
      -- All links would be in the chain, and the name once more.
      exact absurd hchain.length_le (by omega)
  | succ budget ih =>
      have hread := hs.of_imports hm
      have hnext (hnew : placeOf m name ∉ chain.map Key.place) := hchain.cons hm hl hnew
      have hbudget' : st.links.card < budget + (⟨m.path, name⟩ :: chain : List Key).length := by
        rw [List.length_cons]
        omega
      refine .named (Q := fun _ _ => True) (fun _ => trivial) (fun hnew _ => hnext hnew) ?_ ?_
        fun _ _ _ => trivial
      · intro hnew _ d hd
        refine ⟨fun t ht => ?_, fun _ _ => trivial⟩
        refine .members (fits_true m) (fun _ _ => trivial) (fun _ _ => hnext hnew)
          fun d' n _ _ hn => ?_
        have hholds := hread.holds_of_declaration hd ht
        have hlink : linkOf m n ∈ st.links :=
          Expansion.linkOf_mem_of_infix hread hread (hn.of_all hholds)
        exact ih d' hm hlink (hnext hnew) hbudget'
      · intro hnew _ _ specifier imported m' hi hfound
        exact ih (depth + 1) (hm.step hi hfound) (Expansion.linkOf_mem hread hi hfound)
          (hnext hnew) hbudget'

/-! ### The resolution of a type -/

/-- The file to which a path leads in a store. -/
def fileAt (st : Store) (p : Path) : Option Place :=
  match st.locate true p with
  | .ok (.at x _) => some x
  | _ => none

/-- The declaration that a name stands for: the file of its module, and the name. -/
def declarationOf (st : Store) (k : Key) : Option Place × String := (fileAt st k.path, k.name)

/-- Whether the modules that a source imports are under one path each: where two paths lead to one file,
their components are the same. -/
def Unaliased (st : Store) (s : Source) : Prop :=
  ∀ m m', s.Imports st.modules m → s.Imports st.modules m' →
    fileAt st m.path = fileAt st m'.path → m.path.components = m'.path.components

/-- What holds of the resolution of a type of a source in a store. -/
structure Nests (st : Store) (s : Source) (type : Tree) : Prop where
  /-- It ends, and gives the members of the type written out. -/
  value : (resolve st.modules.lookup st.modules.reach s type).value =
    some (ofType st.modules Expansion.levels [] s type).members
  /-- No name is left in the set. -/
  inProgress : (resolve st.modules.lookup st.modules.reach s type).inProgress = []
  /-- No name is resolved twice in nested calls under one path. -/
  nodup : ∀ c ∈ (resolve st.modules.lookup st.modules.reach s type).calls,
    (c.chain.map Key.place).Nodup
  /-- Names are not nested deeper than the store has links. -/
  length_le : ∀ c ∈ (resolve st.modules.lookup st.modules.reach s type).calls,
    c.chain.length ≤ st.links.card
  /-- If modules are under one path each, no declaration is resolved twice in nested calls. -/
  distinct : Unaliased st s →
    ∀ c ∈ (resolve st.modules.lookup st.modules.reach s type).calls,
      (c.chain.map (declarationOf st)).Nodup
  /-- In that case names are not nested deeper than there are declarations. -/
  card_le : Unaliased st s →
    ∀ c ∈ (resolve st.modules.lookup st.modules.reach s type).calls,
      ∀ declarations : Finset (Option Place × String),
        (∀ k ∈ c.chain, declarationOf st k ∈ declarations) → c.chain.length ≤ declarations.card

/-- Names that differ in the set are of different declarations, if modules are under one path each. -/
theorem Nested.distinct (h : Nested st s chain) (hs : Unaliased st s) :
    (chain.map (declarationOf st)).Nodup := by
  refine List.Nodup.map_on (fun k hk k' hk' heq => ?_) (h.nodup.of_map _)
  obtain ⟨hfile, hname⟩ := Prod.mk.inj heq
  obtain ⟨m, hm, hpath⟩ := h.imported k hk
  obtain ⟨m', hm', hpath'⟩ := h.imported k' hk'
  rw [← hpath, ← hpath'] at hfile
  have hcomponents := hs m m' hm hm' hfile
  rw [hpath, hpath'] at hcomponents
  exact List.inj_on_of_nodup_map h.nodup hk hk' (Prod.ext hcomponents hname)

/-- The resolution of a type ends, and no name is resolved twice in nested calls under one path. If
modules are under one path each, no declaration is resolved twice in nested calls. -/
theorem resolve_nests (hs : s.ReadIn st) {type : Tree} (htype : s.Holds type) :
    Nests st s type := by
  have hcard : st.links.card < st.modules.reach := Nat.lt_succ_of_le st.card_links_le
  have hlink {n : String} (hn : Mentions s type n) : linkOf s n ∈ st.links :=
    Expansion.linkOf_mem_of_infix hs hs (hn.of_all htype)
  have hmeets : Meets (nests st s) []
      (members (named st.modules.lookup st.modules.reach) 0 [] s type) fun _ => True := by
    refine .members (fits_true s) (fun _ _ => trivial) (fun _ _ => Nested.nil) fun d n _ _ hn => ?_
    exact named_nests hs st.modules.reach d .self (hlink hn) .nil hcard
  have hmet := hmeets fun _ _ => trivial
  have hchain : ∀ c ∈ (resolve st.modules.lookup st.modules.reach s type).calls,
      Nested st s c.chain := hmet.promises
  obtain ⟨ms, hms⟩ : ∃ ms,
      (resolve st.modules.lookup st.modules.reach s type).value = some ms :=
    Option.ne_none_iff_exists'.mp hmet.exhausts
  obtain ⟨hempty, hmembers⟩ := resolve_eq (.inl (Nat.le_succ _)) hms
  have hdistinct (hu : Unaliased st s) :
      ∀ c ∈ (resolve st.modules.lookup st.modules.reach s type).calls,
        (c.chain.map (declarationOf st)).Nodup := fun c hc => (hchain c hc).distinct hu
  refine ⟨hmembers ▸ hms, hempty, fun c hc => (hchain c hc).nodup,
    fun c hc => (hchain c hc).length_le, hdistinct, fun hu c hc declarations hmem => ?_⟩
  rw [← List.length_map (declarationOf st), ← List.toFinset_card_of_nodup (hdistinct hu c hc)]
  refine Finset.card_le_card fun x hx => ?_
  obtain ⟨k, hk, rfl⟩ := List.mem_map.mp (List.mem_toFinset.mp hx)
  exact hmem k hk

/-! ### A declaration that refers to itself -/

/-- The first type of a declaration in a source. -/
def typeOf? (s : Source) (name : String) : Option Tree :=
  ((declaration? s name).elim [] typesOf).head?

theorem holds_of_typeOf? (hs : s.ReadIn st) {type : Tree} (h : typeOf? s name = some type) :
    s.Holds type := by
  have hmem := List.mem_of_head? h
  cases hd : declaration? s name with
  | none =>
      rw [hd] at hmem
      cases hmem
  | some d =>
      rw [hd] at hmem
      exact hs.holds_of_declaration hd hmem

/-- A source without specifiers is under one path. -/
theorem unaliased_of_specifiers (h : s.specifiers = []) : Unaliased st s := by
  have hself {m : Source} (hm : s.Imports st.modules m) : m = s := by
    cases hm with
    | self => rfl
    | step hm himport => exact absurd himport (hm.not_import h)
  intro m m' hm hm' _
  rw [hself hm, hself hm']

namespace Looped

/-- A declaration that is a base of itself. -/
def store : Store := ⟨[(["C.tsx"], .file (.text "interface A extends A{a:1}type P=A"))], []⟩

theorem readable : ∃ s type, Source.loadComponent store ⟨"/C.tsx"⟩ = .ok s ∧
    typeOf? s "P" = some type ∧ s.specifiers = [] := by
  have hread : ((Source.loadComponent store ⟨"/C.tsx"⟩).toOption.any fun s =>
      (typeOf? s "P").isSome && decide (s.specifiers = [])) = true := by
    decide +kernel
  obtain ⟨s, hs, h⟩ := exists_ok_of_any hread
  obtain ⟨htype, hnil⟩ := Bool.and_eq_true_iff.mp h
  obtain ⟨type, htype⟩ := Option.isSome_iff_exists.mp htype
  exact ⟨s, type, hs, htype, of_decide_eq_true hnil⟩

end Looped

theorem resolve_nests_looped : ∃ s type, s.ReadIn Looped.store ∧ s.Holds type ∧
    Unaliased Looped.store s ∧ Nests Looped.store s type := by
  obtain ⟨s, type, hs, htype, hnil⟩ := Looped.readable
  have hread := Source.readIn_of_loadComponent hs
  have hholds := holds_of_typeOf? hread htype
  exact ⟨s, type, hread, hholds, unaliased_of_specifiers hnil, resolve_nests hread hholds⟩

/-! ### A declaration under two paths -/

namespace Winding

/-- A module that imports itself through its directory. -/
def store : Store :=
  ⟨[(["a"], .directory), (["a", "C.tsx"], .file (.text
    "import{A as D}from'../a/C';interface A extends D{a:1}type P=A"))], []⟩

/-- Whether a declaration is resolved twice in nested calls. -/
def isRepeated (s : Source) (type : Tree) : Bool :=
  (resolve store.modules.lookup store.modules.reach s type).calls.any fun c =>
    ¬ (c.chain.map (declarationOf store)).Nodup

end Winding

/-- Where a module is imported under two paths, a declaration may be resolved twice in nested calls. -/
theorem declaration_nests_twice : ∃ s type, s.ReadIn Winding.store ∧ s.Holds type ∧
    ∃ c ∈ (resolve Winding.store.modules.lookup Winding.store.modules.reach s type).calls,
      ¬ (c.chain.map (declarationOf Winding.store)).Nodup := by
  have hrepeated : ((Source.loadComponent Winding.store ⟨"/a/C.tsx"⟩).toOption.any fun s =>
      (typeOf? s "P").any (Winding.isRepeated s)) = true := by
    decide +kernel
  obtain ⟨s, hs, h⟩ := exists_ok_of_any hrepeated
  obtain ⟨type, htype, h⟩ := (Option.any_eq_true _ _).mp h
  obtain ⟨c, hc, hnodup⟩ := List.any_eq_true.mp h
  have hread := Source.readIn_of_loadComponent hs
  exact ⟨s, type, hread, holds_of_typeOf? hread htype, c, hc, of_decide_eq_true hnodup⟩

end Resolver

end Trellis
