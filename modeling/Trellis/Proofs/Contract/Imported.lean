import Trellis.Contract.Analysis
import Trellis.Proofs.Contract.Reach

/-! # Imported modules

What an analysis depends on besides the source itself: what the imports lead to, of the source and
of the modules that it imports.

* `Source.Imports` are the modules that a source imports, also through others.
* `Store.FindsAlike` says that two stores find the same for them. `Analysis.components_congr`: then
  they give the source the same components.
* `Source.Imports.not_import`: a source without specifiers imports nothing. -/

namespace Trellis

open TypeMember

/-- The source itself and the modules that it imports, also through others. -/
inductive Source.Imports (modules : Modules) (m : Source) : Source → Prop
  | self : Imports modules m m
  | step {m' m'' : Source} {name specifier imported : String} : Imports modules m m' →
      TypeMember.import? m' name = some (specifier, imported) →
      modules.lookup m'.path specifier = .found m'' → Imports modules m m''

/-- Whether two stores find the same for the imports of a source and of what it imports. -/
structure Store.FindsAlike (s t : Store) (m : Source) : Prop where
  /-- The source was read in both. -/
  readIn : m.ReadIn s ∧ m.ReadIn t
  /-- The imports lead to the same. -/
  lookup_eq : ∀ m', m.Imports s.modules m' → ∀ name specifier imported,
    TypeMember.import? m' name = some (specifier, imported) →
      t.lookup m'.path specifier = s.lookup m'.path specifier

namespace Store.FindsAlike

variable {s t : Store} {m m' : Source}

/-- What is imported was read in both stores. -/
theorem readIn_of_imports (h : s.FindsAlike t m) (hi : m.Imports s.modules m') :
    m'.ReadIn s ∧ m'.ReadIn t := by
  induction hi with
  | self => exact h.readIn
  | step hi himport hfound _ =>
      exact ⟨readIn_of_lookup hfound,
        readIn_of_lookup ((h.lookup_eq _ hi _ _ _ himport).trans hfound)⟩

end Store.FindsAlike

namespace Expansion

variable {s t : Store} {m : Source}

/-- A name leads to the same declaration in both stores, in a module that is imported. -/
theorem locate_congr (h : s.FindsAlike t m) (reach : Nat) (places : List Place) {m' : Source}
    (name : String) (hi : m.Imports s.modules m') :
    locate t.modules reach places m' name = locate s.modules reach places m' name ∧
      ∀ f ∈ (locate s.modules reach places m' name).2, m.Imports s.modules f.source := by
  have hnone : ∀ f ∈ (none : Option Found), m.Imports s.modules f.source :=
    fun f hf => absurd hf (Option.not_mem_none f)
  induction reach generalizing places m' name with
  | zero =>
      unfold locate
      split
      · exact ⟨rfl, hnone⟩
      · dsimp only
        split
        · exact ⟨rfl, fun f hf => Option.mem_some.mp hf ▸ hi⟩
        · cases import? m' name with
          | none => exact ⟨rfl, hnone⟩
          | some found => exact ⟨rfl, hnone⟩
  | succ reach ih =>
      unfold locate
      split
      · exact ⟨rfl, hnone⟩
      · dsimp only
        split
        · exact ⟨rfl, fun f hf => Option.mem_some.mp hf ▸ hi⟩
        · cases himport : import? m' name with
          | none => exact ⟨rfl, hnone⟩
          | some found =>
              obtain ⟨specifier, imported⟩ := found
              have heq : t.modules.lookup m'.path specifier = s.modules.lookup m'.path specifier :=
                h.lookup_eq m' hi name specifier imported himport
              dsimp only
              rw [heq]
              cases hfound : s.modules.lookup m'.path specifier with
              | missing => exact ⟨rfl, hnone⟩
              | refused d text => exact ⟨rfl, hnone⟩
              | found m'' =>
                  have hnext := ih (placeOf m' name :: places) imported (hi.step himport hfound)
                  dsimp only
                  rw [hnext.1]
                  exact ⟨rfl, hnext.2⟩

/-- The bounds of the two stores are both enough, so they make no difference. -/
theorem locate_reach_congr (h : s.FindsAlike t m) {places : List Place} {m' : Source}
    {name : String} (hi : m.Imports s.modules m') :
    locate t.modules t.modules.reach places m' name =
      locate s.modules s.modules.reach places m' name := by
  obtain ⟨hs, ht⟩ := h.readIn_of_imports hi
  rw [← locate_of_reach ht places name (Nat.le_max_right s.modules.reach t.modules.reach),
    ← locate_of_reach hs places name (Nat.le_max_left s.modules.reach t.modules.reach)]
  exact (locate_congr h _ places name hi).1

/-- A name written out: the declaration to which it leads, in its own module. -/
def ofName (modules : Modules) (level : Nat) (places : List Place) (s : Source) (name : String) :
    Expansion :=
  let (ls, found) := locate modules modules.reach places s name
  match found with
  | none => through ls nothing
  | some f =>
    let inside := ofType modules (level - ls.length - 1) f.places f.source
    through ls <|
      match f.declaration.kind with
      | .interfaceDeclaration =>
        join ((basesOf f.declaration).map inside ++
          ((f.declaration.part? .body).map fun b => own (ofBody f.source b)).toList)
      | _ => ((f.declaration.part? .value).map inside).getD nothing

/-- One level of a type, given what its names and the types inside it stand for. -/
def ofLevel (s : Source) (named : String → Expansion) (inner : Tree → Expansion) (t : Tree) :
    Expansion :=
  let argument := ((argumentsOf t).head?.map inner).getD nothing
  let applied (name : Tree) : Expansion :=
    match lastName name.text with
    | "PropsWithChildren" => withChildren argument
    | "Partial" => withOptional true argument
    | "Required" => withOptional false argument
    | "Readonly" => argument
    | "Omit" => select false ((argumentsOf t)[1]?.elim [] literalNames) argument
    | "Pick" => select true ((argumentsOf t)[1]?.elim [] literalNames) argument
    | _ => if name.kind = .typeIdentifier then named name.text else nothing
  match t.kind with
  | .objectType | .interfaceBody => own (ofBody s t)
  | .typeIdentifier => named t.text
  | .genericType => (t.part? .name).elim nothing applied
  | .intersectionType => join (t.parts.map inner)
  | _ => nothing

theorem ofType_succ (modules : Modules) (level : Nat) (places : List Place) (s : Source)
    (type : Tree) :
    ofType modules (level + 1) places s type =
      ((peel type).map (ofLevel s (ofName modules level places s)
        (ofType modules level places s))).getD nothing := by
  unfold ofType
  cases peel type <;> rfl

theorem ofName_congr (h : s.FindsAlike t m) {level : Nat} {places : List Place} {m' : Source}
    (hi : m.Imports s.modules m')
    (hinside : ∀ n ≤ level, ∀ (places : List Place) (m' : Source), m.Imports s.modules m' →
      ofType t.modules n places m' = ofType s.modules n places m') (name : String) :
    ofName t.modules level places m' name = ofName s.modules level places m' name := by
  unfold ofName
  rw [locate_reach_congr h hi]
  have hsource := (locate_congr h s.modules.reach places name hi).2
  cases hl : locate s.modules s.modules.reach places m' name with
  | mk ls found =>
      rw [hl] at hsource
      cases found with
      | none => rfl
      | some f =>
          have hsame := hinside (level - ls.length - 1) (by omega) f.places f.source
            (hsource f rfl)
          dsimp only
          rw [hsame]

/-- A type of a module that is imported is written out in the same way in both stores. -/
theorem ofType_congr (h : s.FindsAlike t m) (levels : Nat) (places : List Place) {m' : Source}
    (hi : m.Imports s.modules m') :
    ofType t.modules levels places m' = ofType s.modules levels places m' := by
  induction levels using Nat.strong_induction_on generalizing places m' with
  | _ levels ih =>
      funext type
      cases levels with
      | zero =>
          unfold ofType
          rfl
      | succ level =>
          have hinner := ih level (Nat.lt_succ_self level) places hi
          have hnamed : ofName t.modules level places m' = ofName s.modules level places m' :=
            funext (ofName_congr h hi fun n hn places m'' hi' =>
              ih n (Nat.lt_succ_of_le hn) places hi')
          rw [ofType_succ, ofType_succ, hinner, hnamed]

end Expansion

/-- Two stores that find the same for the imports of a source give it the same components. -/
theorem Analysis.components_congr {s t : Store} {m : Source} (h : s.FindsAlike t m) :
    components t.modules m = components s.modules m := by
  have hexpansion (c : Candidate) : c.expansion t.modules m = c.expansion s.modules m := by
    unfold Candidate.expansion
    rw [Expansion.ofType_congr h _ _ .self]
  unfold components Candidate.props Candidate.mentions
  simp only [hexpansion]

/-! ### Sources that import nothing -/

/-- The specifiers of a source. -/
def Source.specifiers (s : Source) : List String :=
  (s.statements.filter (·.kind = .importStatement)).filterMap fun t =>
    (t.part? .source).map fun x => Text.stripQuotes x.text

/-- The specifier of an imported name is one of the source. -/
theorem Source.mem_specifiers {s : Source} {name specifier imported : String}
    (h : TypeMember.import? s name = some (specifier, imported)) : specifier ∈ s.specifiers := by
  obtain ⟨t, ht, h⟩ := List.exists_of_findSome?_eq_some h
  unfold importedBy? at h
  split at h
  · rename_i hkind
    obtain ⟨x, hx, h⟩ := Option.bind_eq_some_iff.mp h
    obtain ⟨spec, _, h⟩ := Option.bind_eq_some_iff.mp h
    obtain ⟨n, _, h⟩ := Option.bind_eq_some_iff.mp h
    cases h
    refine List.mem_filterMap.mpr ⟨t, List.mem_filter.mpr ⟨ht, decide_eq_true hkind⟩, ?_⟩
    rw [hx]
    rfl
  · cases h

/-- A source without specifiers imports nothing. -/
theorem Source.Imports.not_import {modules : Modules} {s m : Source} (hm : s.Imports modules m)
    (h : s.specifiers = []) {name specifier imported : String} :
    TypeMember.import? m name ≠ some (specifier, imported) := by
  induction hm generalizing name specifier imported with
  | self =>
      intro himport
      have hmem := mem_specifiers himport
      rw [h] at hmem
      cases hmem
  | step _ himport _ ih => exact absurd himport ih

theorem Store.modules_lookup (s : Store) : s.modules.lookup = s.lookup := rfl

end Trellis
