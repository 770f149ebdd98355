import Mathlib.Data.List.Forall2
import Trellis.Proofs.Contract.RenamedElements

/-! # Places in a tree

Where the elements of a tree stand, and what stands around them.

* A `Tree.Place` is a way down from the root; `Tree.at?` goes it. Places are ordered as nodes come
  in the source: a node before what is below it, and that before the nodes to the right.
* `Tree.elementPlaces` lists the places of all elements, each once and in this order
  (`mem_elementPlaces`, `pairwise_elementPlaces`).
* `Tree.aroundAt` is what stands around a place. It falls into what is below and above of any place on
  the way (`aroundAt_append`, `exists_split`).
* `Markup.visits_places`: an analysis visits just these places, with just this around them. -/

namespace Trellis

open Syntax

namespace Tree

/-- A place in a tree: the numbers of the children on the way down. -/
abbrev Place := List Nat

/-- The node at a place. No way leads through a mark. -/
def at? (t : Tree) : Place → Option Tree
  | [] => some t
  | i :: p => t.children[i]?.bind fun c => if c.kind = .mark then none else c.at? p

theorem at?_cons {t e : Tree} {i : Nat} {p : Place} : t.at? (i :: p) = some e ↔
    ∃ c, t.children[i]? = some c ∧ c.kind ≠ .mark ∧ c.at? p = some e := by
  rw [at?, Option.bind_eq_some_iff]
  refine exists_congr fun c => and_congr_right fun _ => ?_
  split <;> simp [*]

theorem at?_append (t : Tree) (p q : Place) : t.at? (p ++ q) = (t.at? p).bind (·.at? q) := by
  induction p generalizing t with
  | nil => rfl
  | cons i p ih =>
      rw [List.cons_append, at?, at?]
      cases t.children[i]? with
      | none => rfl
      | some c =>
          rw [Option.bind_some, Option.bind_some]
          split
          · rfl
          · exact ih c

/-! ### Places of elements -/

mutual

/-- The places of the elements of a tree. -/
def elementPlaces : Tree → List Place
  | .node k l x n ts =>
    (if Enclosure.isElement (.node k l x n ts) then [[]] else []) ++ elementPlacesFrom 0 ts

/-- The places of the elements below a node, in the children from the `i`-th one on. -/
def elementPlacesFrom (i : Nat) : List Tree → List Place
  | [] => []
  | t :: ts =>
    (if t.kind = .mark then [] else (elementPlaces t).map (i :: ·)) ++ elementPlacesFrom (i + 1) ts

end

theorem elementPlaces_eq (t : Tree) : t.elementPlaces =
    (if Enclosure.isElement t then [[]] else []) ++ elementPlacesFrom 0 t.children := by
  cases t
  rw [elementPlaces]
  rfl

section places
variable {t : Tree} {ts : List Tree} {i : Nat} {q : Place}

theorem mem_elementPlacesFrom : q ∈ elementPlacesFrom i ts ↔
    ∃ j c p, ts[j]? = some c ∧ c.kind ≠ .mark ∧ p ∈ c.elementPlaces ∧ q = (i + j) :: p := by
  induction ts generalizing i with
  | nil => simp [elementPlacesFrom]
  | cons t ts ih =>
      rw [elementPlacesFrom, List.mem_append, ih]
      constructor
      · rintro (h | ⟨j, c, p, hc, hm, hp, rfl⟩)
        · split at h
          · exact absurd h List.not_mem_nil
          · next hm =>
            obtain ⟨p, hp, rfl⟩ := List.mem_map.mp h
            exact ⟨0, t, p, rfl, hm, hp, rfl⟩
        · exact ⟨j + 1, c, p, hc, hm, hp, by rw [Nat.add_right_comm, Nat.add_assoc]⟩
      · rintro ⟨j, c, p, hc, hm, hp, rfl⟩
        cases j with
        | zero =>
            cases hc
            rw [if_neg hm]
            exact .inl (List.mem_map.mpr ⟨p, hp, rfl⟩)
        | succ j => exact .inr ⟨j, c, p, hc, hm, hp, by rw [Nat.add_right_comm, Nat.add_assoc]⟩

/-- Just the places of elements are listed. -/
theorem mem_elementPlaces :
    q ∈ t.elementPlaces ↔ ∃ e, t.at? q = some e ∧ Enclosure.isElement e = true := by
  induction t using Tree.induct generalizing q with
  | node k l x n ts ih =>
      rw [elementPlaces_eq, List.mem_append, mem_elementPlacesFrom]
      cases q with
      | nil =>
          have hself : ([] : Place) ∈ (if Enclosure.isElement (.node k l x n ts) then [[]] else []) ↔
              Enclosure.isElement (.node k l x n ts) = true := by
            split <;> simp [*]
          rw [hself]
          constructor
          · rintro (h | ⟨_, _, _, _, _, _, hq⟩)
            · exact ⟨_, rfl, h⟩
            · cases hq
          · rintro ⟨e, he, h⟩
            cases he
            exact .inl h
      | cons i q =>
          have hself : i :: q ∉ (if Enclosure.isElement (.node k l x n ts) then [[]] else []) := by
            split <;> simp
          constructor
          · rintro (h | ⟨j, c, p, hc, hm, hp, hq⟩)
            · exact absurd h hself
            · rw [Nat.zero_add] at hq
              cases hq
              obtain ⟨e, he, h⟩ := (ih c (List.mem_of_getElem? hc)).mp hp
              exact ⟨e, at?_cons.mpr ⟨c, hc, hm, he⟩, h⟩
          · rintro ⟨e, he, h⟩
            obtain ⟨c, hc, hm, he⟩ := at?_cons.mp he
            refine .inr ⟨i, c, q, hc, hm, (ih c (List.mem_of_getElem? hc)).mpr ⟨e, he, h⟩, ?_⟩
            rw [Nat.zero_add]

theorem pairwise_elementPlacesFrom (h : ∀ c ∈ ts, c.elementPlaces.Pairwise (· < ·)) :
    (elementPlacesFrom i ts).Pairwise (· < ·) := by
  induction ts generalizing i with
  | nil => exact List.Pairwise.nil
  | cons t ts ih =>
      rw [elementPlacesFrom, List.pairwise_append]
      refine ⟨?_, ih fun c hc => h c (List.mem_cons_of_mem t hc), fun p hp q hq => ?_⟩
      · split
        · exact List.Pairwise.nil
        · refine (h t List.mem_cons_self).map _ fun p q hpq => ?_
          exact List.cons_lt_cons_iff.mpr (.inr ⟨rfl, hpq⟩)
      · obtain ⟨j, c, q, -, -, -, rfl⟩ := mem_elementPlacesFrom.mp hq
        split at hp
        · exact absurd hp List.not_mem_nil
        · obtain ⟨p, -, rfl⟩ := List.mem_map.mp hp
          exact List.cons_lt_cons_iff.mpr (.inl (by omega))

/-- The places are listed in the order of the source. -/
theorem pairwise_elementPlaces (t : Tree) : t.elementPlaces.Pairwise (· < ·) := by
  induction t using Tree.induct with
  | node k l x n ts ih =>
      rw [elementPlaces_eq, List.pairwise_append]
      refine ⟨?_, pairwise_elementPlacesFrom ih, fun p hp q hq => ?_⟩
      · split
        · exact List.pairwise_singleton _ _
        · exact List.Pairwise.nil
      · obtain ⟨j, c, q, -, -, -, rfl⟩ := mem_elementPlacesFrom.mp hq
        split at hp
        · rw [List.mem_singleton.mp hp]
          exact List.nil_lt_cons _ _
        · exact absurd hp List.not_mem_nil

end places

/-! ### What stands around a place -/

/-- What stands around a place, from the inside outwards. -/
def aroundAt (t : Tree) : Place → List Enclosure
  | [] => []
  | i :: p => t.children[i]?.elim [] fun c => c.aroundAt p ++ (Enclosure.between t c).toList

section around
variable {t e parent child : Tree} {i : Nat} {p q r : Place}

theorem aroundAt_cons (h : t.children[i]? = some child) :
    t.aroundAt (i :: p) = child.aroundAt p ++ (Enclosure.between t child).toList := by
  rw [aroundAt, h, Option.elim_some]

/-- What stands around a place is what stands around it below a node, at the node, and above it. -/
theorem aroundAt_append (hp : t.at? p = some parent) (hc : parent.children[i]? = some child) :
    t.aroundAt (p ++ i :: r) =
      child.aroundAt r ++ ((Enclosure.between parent child).toList ++ t.aroundAt p) := by
  induction p generalizing t with
  | nil =>
      cases hp
      rw [List.nil_append, aroundAt_cons hc, aroundAt, List.append_nil]
  | cons j p ih =>
      obtain ⟨c, hj, -, hp⟩ := at?_cons.mp hp
      rw [List.cons_append, aroundAt_cons hj, aroundAt_cons hj, ih hp]
      simp only [List.append_assoc]

/-- Each thing around a place stands at a node on the way to it. -/
theorem exists_split (hq : t.at? q = some e) {before after : List Enclosure} {x : Enclosure}
    (h : t.aroundAt q = before ++ x :: after) : ∃ p i r parent child, q = p ++ i :: r ∧
      t.at? p = some parent ∧ parent.children[i]? = some child ∧
      Enclosure.between parent child = some x ∧ before = child.aroundAt r := by
  induction q generalizing t after with
  | nil => exact absurd h (by rw [aroundAt]; simp)
  | cons i q ih =>
      obtain ⟨c, hc, hm, hq⟩ := at?_cons.mp hq
      rw [aroundAt_cons hc] at h
      rcases List.append_eq_append_iff.mp h with ⟨more, hbefore, hx⟩ | ⟨more, hbefore, hx⟩
      · -- It stands at the root.
        have hnil : more = [] ∧ Enclosure.between t c = some x := by
          cases hb : Enclosure.between t c with
          | none =>
              rw [hb] at hx
              exact absurd hx (by simp)
          | some y =>
              rw [hb, Option.toList_some, eq_comm, List.append_eq_singleton_iff] at hx
              rcases hx with ⟨hmore, hx⟩ | ⟨-, hx⟩
              · cases hx
                exact ⟨hmore, rfl⟩
              · cases hx
        refine ⟨[], i, q, t, c, rfl, rfl, hc, hnil.2, ?_⟩
        rw [hbefore, hnil.1, List.append_nil]
      · cases more with
        | nil =>
            rw [List.nil_append] at hx
            have hb : Enclosure.between t c = some x := by
              cases hb : Enclosure.between t c with
              | none =>
                  rw [hb] at hx
                  cases hx
              | some y =>
                  rw [hb] at hx
                  cases hx
                  rfl
            refine ⟨[], i, q, t, c, rfl, rfl, hc, hb, ?_⟩
            rw [hbefore, List.append_nil]
        | cons y more =>
            rw [List.cons_append, List.cons.injEq] at hx
            obtain ⟨rfl, -⟩ := hx
            obtain ⟨p, j, r, parent, child, rfl, hp, hj, hb, hbelow⟩ := ih hq hbefore
            exact ⟨i :: p, j, r, parent, child, rfl, at?_cons.mpr ⟨c, hc, hm, hp⟩, hj, hb, hbelow⟩

end around

end Tree

/-! ### Visits -/

namespace Markup

/-- Whether a visit is that of a place, in a tree with something around it. -/
def Visit.IsAt (t : Tree) (around : List Enclosure) (q : Tree.Place) (v : Visit) : Prop :=
  t.at? q = some v.element ∧ v.around = t.aroundAt q ++ around

theorem visitsOfAll_places {parent : Tree} {around : List Enclosure} {i : Nat} {ts : List Tree}
    (hts : ∀ j, ts[j]? = parent.children[i + j]?)
    (h : ∀ c ∈ ts, ∀ around,
      List.Forall₂ (Visit.IsAt c around) c.elementPlaces (visits around c)) :
    List.Forall₂ (Visit.IsAt parent around) (Tree.elementPlacesFrom i ts)
      (visitsOfAll parent around ts) := by
  induction ts generalizing i with
  | nil => exact .nil
  | cons t ts ih =>
      have hhead : parent.children[i]? = some t := (hts 0).symm
      rw [Tree.elementPlacesFrom, visitsOfAll]
      refine List.rel_append ?_ (ih (fun j => ?_) fun c hc => h c (List.mem_cons_of_mem t hc))
      · split
        · exact .nil
        · next hm =>
          rw [List.forall₂_map_left_iff]
          refine (h t List.mem_cons_self _).imp fun p v hv => ⟨?_, ?_⟩
          · exact Tree.at?_cons.mpr ⟨t, hhead, hm, hv.1⟩
          · rw [hv.2, Tree.aroundAt_cons hhead, List.append_assoc]
      · have := hts (j + 1)
        rw [List.getElem?_cons_succ] at this
        rw [this, Nat.add_right_comm, Nat.add_assoc]

/-- The places of the elements are visited, in their order. -/
theorem visits_places (t : Tree) (around : List Enclosure) :
    List.Forall₂ (Visit.IsAt t around) t.elementPlaces (visits around t) := by
  induction t using Tree.induct generalizing around with
  | node k l x n ts ih =>
      rw [Tree.elementPlaces_eq, visits]
      refine List.rel_append ?_ (visitsOfAll_places (fun j => ?_) ih)
      · split
        · exact .cons ⟨rfl, rfl⟩ .nil
        · exact .nil
      · rw [Nat.zero_add, Tree.children]

end Markup

end Trellis
