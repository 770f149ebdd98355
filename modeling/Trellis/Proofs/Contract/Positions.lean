import Mathlib.Data.List.Nodup
import Trellis.Proofs.Contract.Places

/-! # Positions in a source

Lists that come out of a walk over a source, against what stands at which position.

* `Enumerates R as` says that a list gives just what the relation `R` has at the positions of a
  source, in the order of the positions. A position is a list of numbers: of a statement, of a part of
  it, and so on.
* `Enumerates.flatMap` is the walk over the parts of something; `Enumerates.filterMap` leaves some of
  the values out.
* `Enumerates.findSome?_eq`: what is found first stands at the first position.
-/

namespace Trellis


/-- Whether a list gives what a relation has at its positions, in the order of the positions. -/
def Enumerates {α : Type} (R : Tree.Place → α → Prop) (as : List α) : Prop :=
  ∃ entries : List (Tree.Place × α), entries.Pairwise (·.1 < ·.1) ∧
    (∀ p a, R p a ↔ (p, a) ∈ entries) ∧ entries.map Prod.snd = as

namespace Enumerates

variable {α β : Type} {R R' : Tree.Place → α → Prop} {as : List α}

/-- At a position there is one value at most. -/
theorem eq_of_position (h : Enumerates R as) {p : Tree.Place} {a b : α} (ha : R p a) (hb : R p b) :
    a = b := by
  obtain ⟨entries, hsorted, hmem, -⟩ := h
  have hnodup : (entries.map Prod.fst).Nodup := by
    rw [List.Nodup, List.pairwise_map]
    refine hsorted.imp fun hlt heq => ?_
    rw [heq] at hlt
    exact List.lt_irrefl _ hlt
  exact (Prod.mk.inj (List.inj_on_of_nodup_map hnodup ((hmem p a).mp ha) ((hmem p b).mp hb) rfl)).2

/-- Values of which the list has one at most stand at one position. -/
theorem position_eq (h : Enumerates R as) {f : α → Bool} (hf : (as.filter f).length ≤ 1)
    {p q : Tree.Place} {a b : α} (ha : R p a) (hfa : f a = true) (hb : R q b) (hfb : f b = true) :
    p = q := by
  obtain ⟨entries, -, hmem, rfl⟩ := h
  rw [List.filter_map, List.length_map] at hf
  have hpa : (p, a) ∈ entries.filter (f ∘ Prod.snd) :=
    List.mem_filter.mpr ⟨(hmem p a).mp ha, hfa⟩
  have hqb : (q, b) ∈ entries.filter (f ∘ Prod.snd) :=
    List.mem_filter.mpr ⟨(hmem q b).mp hb, hfb⟩
  match hlist : entries.filter (f ∘ Prod.snd) with
  | [] => rw [hlist] at hpa; cases hpa
  | [x] =>
      rw [hlist, List.mem_singleton] at hpa hqb
      exact (Prod.mk.inj (hpa.trans hqb.symm)).1
  | x :: y :: rest =>
      rw [hlist, List.length_cons, List.length_cons] at hf
      omega

section nodup
variable {f : α → β}

/-- Values that differ at different positions are listed once each. -/
theorem nodup_map (h : Enumerates R as)
    (hf : ∀ p q a b, R p a → R q b → f a = f b → p = q) : (as.map f).Nodup := by
  obtain ⟨entries, hsorted, hmem, rfl⟩ := h
  rw [List.map_map, List.Nodup, List.pairwise_map]
  refine hsorted.imp_of_mem fun {x y} hx hy hlt heq => ?_
  rw [hf x.1 y.1 x.2 y.2 ((hmem _ _).mpr hx) ((hmem _ _).mpr hy) heq] at hlt
  exact List.lt_irrefl _ hlt

/-- Values that are listed once each differ at different positions. -/
theorem position_of_nodup (h : Enumerates R as) (hf : (as.map f).Nodup) {p q : Tree.Place} {a b : α}
    (ha : R p a) (hb : R q b) (heq : f a = f b) : p = q := by
  obtain ⟨entries, -, hmem, rfl⟩ := h
  rw [List.map_map] at hf
  exact (Prod.mk.inj (List.inj_on_of_nodup_map hf ((hmem p a).mp ha) ((hmem q b).mp hb) heq)).1

end nodup

/-- A list has just the values of the relation. -/
theorem mem_iff (h : Enumerates R as) {a : α} : a ∈ as ↔ ∃ p, R p a := by
  obtain ⟨entries, -, hmem, rfl⟩ := h
  simp only [List.mem_map, hmem, Prod.exists, exists_eq_right]

theorem congr (h : Enumerates R as) (hR : ∀ p a, R p a ↔ R' p a) : Enumerates R' as := by
  obtain ⟨entries, hsorted, hmem, hmap⟩ := h
  exact ⟨entries, hsorted, fun p a => (hR p a).symm.trans (hmem p a), hmap⟩

theorem nil (h : ∀ p a, ¬ R p a) : Enumerates R [] :=
  ⟨[], .nil, fun p a => iff_of_false (h p a) List.not_mem_nil, rfl⟩

/-- A single value, at the position where one already is. -/
theorem singleton (a : α) : Enumerates (fun p b => p = [] ∧ b = a) [a] :=
  ⟨[([], a)], List.pairwise_singleton _ _, fun p b => by simp, rfl⟩

/-- The value of an option, at the position where one already is. -/
theorem toList (o : Option α) : Enumerates (fun p a => p = [] ∧ o = some a) o.toList := by
  cases o with
  | none => exact nil fun p a h => by cases h.2
  | some x =>
      refine (singleton x).congr fun p a => and_congr_right fun _ => ?_
      rw [Option.some.injEq, eq_comm]

/-- Values that are left out, and others that are put in the place of the rest. -/
theorem filterMap (h : Enumerates R as) (f : α → Option β) :
    Enumerates (fun p b => ∃ a, R p a ∧ f a = some b) (as.filterMap f) := by
  obtain ⟨entries, hsorted, hmem, rfl⟩ := h
  refine ⟨entries.filterMap fun e => (f e.2).map (e.1, ·), ?_, fun p b => ?_, ?_⟩
  · refine hsorted.filterMap _ fun e e' hlt x hx y hy => ?_
    obtain ⟨b, -, rfl⟩ := Option.map_eq_some_iff.mp hx
    obtain ⟨b', -, rfl⟩ := Option.map_eq_some_iff.mp hy
    exact hlt
  · simp only [List.mem_filterMap, Option.map_eq_some_iff]
    constructor
    · rintro ⟨a, ha, hb⟩
      exact ⟨(p, a), (hmem p a).mp ha, b, hb, rfl⟩
    · rintro ⟨⟨q, a⟩, ha, b', hb, heq⟩
      cases heq
      exact ⟨a, (hmem q a).mpr ha, hb⟩
  · rw [List.map_filterMap, List.filterMap_map]
    congr 1
    funext e
    simp only [Function.comp_apply, Option.map_map, Function.comp_def, Option.map_id']

/-- The values of the parts from the `i`-th one on. -/
theorem flatMapFrom {ts : List β} {g : β → List α} {S : β → Tree.Place → α → Prop} (i : Nat)
    (h : ∀ t ∈ ts, Enumerates (S t) (g t)) :
    Enumerates (fun p a => ∃ j q t, p = (i + j) :: q ∧ ts[j]? = some t ∧ S t q a)
      (ts.flatMap g) := by
  induction ts generalizing i with
  | nil => exact nil fun p a ⟨j, q, t, _, ht, _⟩ => by simp at ht
  | cons t ts ih =>
      rw [List.forall_mem_cons] at h
      obtain ⟨first, hfirst, hmem, hmap⟩ := h.1
      obtain ⟨rest, hrest, hmem', hmap'⟩ := ih (i + 1) h.2
      refine ⟨first.map (fun e => (i :: e.1, e.2)) ++ rest, ?_, fun p a => ?_, ?_⟩
      · rw [List.pairwise_append, List.pairwise_map]
        refine ⟨hfirst.imp fun hlt => List.cons_lt_cons_iff.mpr (.inr ⟨rfl, hlt⟩), hrest, ?_⟩
        intro e he e' he'
        obtain ⟨e, -, rfl⟩ := List.mem_map.mp he
        obtain ⟨j, q, t, hp, -⟩ := (hmem' e'.1 e'.2).mpr he'
        rw [hp]
        exact List.cons_lt_cons_iff.mpr (.inl (by omega))
      · rw [List.mem_append, ← hmem', List.mem_map]
        constructor
        · rintro ⟨j, q, u, rfl, hu, hS⟩
          cases j with
          | zero =>
              cases hu
              exact .inl ⟨(q, a), (hmem q a).mp hS, rfl⟩
          | succ j => exact .inr ⟨j, q, u, by rw [Nat.add_right_comm, Nat.add_assoc], hu, hS⟩
        · rintro (⟨⟨q, b⟩, hb, heq⟩ | ⟨j, q, u, rfl, hu, hS⟩)
          · cases heq
            exact ⟨0, q, t, rfl, rfl, (hmem q b).mpr hb⟩
          · exact ⟨j + 1, q, u, by rw [Nat.add_right_comm, Nat.add_assoc], hu, hS⟩
      · rw [List.map_append, hmap', List.map_map, List.flatMap_cons, ← hmap]
        rfl

/-- What the parts of something enumerate, at their positions in it. -/
theorem flatMap {ts : List β} {g : β → List α} {S : β → Tree.Place → α → Prop}
    (h : ∀ t ∈ ts, Enumerates (S t) (g t)) :
    Enumerates (fun p a => ∃ i q t, p = i :: q ∧ ts[i]? = some t ∧ S t q a) (ts.flatMap g) := by
  refine (flatMapFrom 0 h).congr fun p a => ?_
  simp only [Nat.zero_add]

/-- The parts themselves, at their numbers. -/
theorem parts (as : List α) : Enumerates (fun p a => ∃ i, p = [i] ∧ as[i]? = some a) as := by
  have h : Enumerates (fun p a => ∃ i q t, p = i :: q ∧ as[i]? = some t ∧ q = [] ∧ a = t)
      (as.flatMap fun a => [a]) := flatMap fun a _ => singleton a
  rw [List.flatMap_singleton'] at h
  refine h.congr fun p a => ⟨?_, ?_⟩
  · rintro ⟨i, q, t, rfl, ht, rfl, rfl⟩
    exact ⟨i, rfl, ht⟩
  · rintro ⟨i, rfl, ht⟩
    exact ⟨i, [], a, rfl, ht, rfl, rfl⟩

/-- What is found first stands at a position, and nothing that would be found stands before it. -/
theorem exists_of_findSome? (h : Enumerates R as) {f : α → Option β} {b : β}
    (hb : as.findSome? f = some b) :
    ∃ p a, R p a ∧ f a = some b ∧ ∀ p' a', R p' a' → (f a').isSome → ¬ p' < p := by
  obtain ⟨entries, hsorted, hmem, rfl⟩ := h
  obtain ⟨before, a, after, hsplit, ha, hbefore⟩ := List.findSome?_eq_some_iff.mp hb
  obtain ⟨first, rest, rfl, rfl, hrest⟩ := List.map_eq_append_iff.mp hsplit
  obtain ⟨⟨p, a⟩, rest, rfl, rfl, rfl⟩ := List.map_eq_cons_iff.mp hrest
  refine ⟨p, a, (hmem p a).mpr (by simp), ha, fun p' a' hR hsome => ?_⟩
  rcases List.mem_append.mp ((hmem p' a').mp hR) with hin | hin
  · have hnone := hbefore a' (List.mem_map.mpr ⟨(p', a'), hin, rfl⟩)
    rw [hnone] at hsome
    cases hsome
  · rcases List.mem_cons.mp hin with heq | hin
    · cases heq
      exact List.lt_irrefl p
    · have hlt := (List.pairwise_cons.mp (List.pairwise_append.mp hsorted).2.1).1 _ hin
      exact List.lt_asymm hlt

end Enumerates

end Trellis
