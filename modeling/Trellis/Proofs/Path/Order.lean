import Mathlib.Data.List.Nodup
import Trellis.Path

/-! # The order of paths

Paths are ordered by their components, so that two paths come at one place exactly when they are the
same. `Path.mergeSort_eq_of_perm`: a list in which no two paths are the same has one sorted order,
however it is arranged. -/

namespace Trellis.Path

/-! ### Components -/

namespace Component

variable {a b c : Component}

theorem before_iff : a.before b = true ↔
    a.rank < b.rank ∨ ∃ x y, a = .normal x ∧ b = .normal y ∧ x < y := by
  cases a <;> cases b <;> simp [before, rank]

theorem before_irrefl (a : Component) : a.before a = false := by
  rw [Bool.eq_false_iff]
  intro h
  rcases before_iff.mp h with h | ⟨x, y, rfl, heq, h⟩
  · exact Nat.lt_irrefl _ h
  · cases heq
    exact String.lt_irrefl x h

theorem before_trans (h : a.before b = true) (h' : b.before c = true) : a.before c = true := by
  rw [before_iff] at h h' ⊢
  rcases h with h | ⟨x, y, rfl, rfl, h⟩
  · rcases h' with h' | ⟨y, z, rfl, rfl, -⟩
    · exact .inl (Nat.lt_trans h h')
    · exact .inl h
  · rcases h' with h' | ⟨y', z, heq, rfl, h'⟩
    · exact .inl h'
    · cases heq
      exact .inr ⟨x, z, rfl, rfl, String.lt_trans h h'⟩

theorem before_or_before (h : a ≠ b) : a.before b = true ∨ b.before a = true := by
  rw [before_iff, before_iff]
  rcases Nat.lt_trichotomy a.rank b.rank with hlt | heq | hlt
  · exact .inl (.inl hlt)
  · cases a with
    | normal x =>
        cases b with
        | normal y =>
            by_cases hlt : x < y
            · exact .inl (.inr ⟨x, y, rfl, rfl, hlt⟩)
            · refine .inr (.inr ⟨y, x, rfl, rfl, String.not_le.mp fun hle => h ?_⟩)
              rw [String.le_antisymm hle (String.not_lt.mp hlt)]
        | _ => cases heq
    | _ => cases b <;> first | exact absurd rfl h | cases heq
  · exact .inr (.inl hlt)

end Component

/-! ### Lists of components -/

section lists
variable {as bs cs : List Component}

theorem listLe_cons {a b : Component} :
    listLe (a :: as) (b :: bs) = true ↔ a.before b = true ∨ a = b ∧ listLe as bs = true := by
  rw [listLe, Bool.or_eq_true, Bool.and_eq_true, decide_eq_true_eq]

theorem listLe_trans (h : listLe as bs = true) (h' : listLe bs cs = true) :
    listLe as cs = true := by
  induction as generalizing bs cs with
  | nil => rfl
  | cons a as ih =>
      cases bs with
      | nil => cases h
      | cons b bs =>
          cases cs with
          | nil => cases h'
          | cons c cs =>
              rw [listLe_cons] at h h' ⊢
              rcases h with h | ⟨rfl, h⟩
              · rcases h' with h' | ⟨rfl, -⟩
                · exact .inl (Component.before_trans h h')
                · exact .inl h
              · exact h'.imp_right fun ⟨heq, h'⟩ => ⟨heq, ih h h'⟩

theorem listLe_total (as bs : List Component) : listLe as bs = true ∨ listLe bs as = true := by
  induction as generalizing bs with
  | nil => exact .inl rfl
  | cons a as ih =>
      cases bs with
      | nil => exact .inr rfl
      | cons b bs =>
          rw [listLe_cons, listLe_cons]
          by_cases heq : a = b
          · exact (ih bs).imp (fun h => .inr ⟨heq, h⟩) fun h => .inr ⟨heq.symm, h⟩
          · exact (Component.before_or_before heq).imp .inl .inl

theorem listLe_antisymm (h : listLe as bs = true) (h' : listLe bs as = true) : as = bs := by
  induction as generalizing bs with
  | nil =>
      cases bs with
      | nil => rfl
      | cons b bs => cases h'
  | cons a as ih =>
      cases bs with
      | nil => cases h
      | cons b bs =>
          rw [listLe_cons] at h h'
          rcases h with h | ⟨rfl, h⟩
          · rcases h' with h' | ⟨rfl, -⟩
            · have := Component.before_trans h h'
              rw [Component.before_irrefl] at this
              cases this
            · rw [Component.before_irrefl] at h
              cases h
          · rcases h' with h' | ⟨-, h'⟩
            · rw [Component.before_irrefl] at h'
              cases h'
            · rw [ih h h']

end lists

/-! ### Sorted lists -/

theorem pairwise_mergeSort (ps : List Path) :
    (ps.mergeSort le).Pairwise (fun p q => p.le q = true) := by
  refine List.pairwise_mergeSort (fun p q r hpq hqr => ?_) (fun p q => ?_) ps
  · exact listLe_trans hpq hqr
  · rw [Bool.or_eq_true]
    exact listLe_total p.components q.components

section distinct
variable {ps qs : List Path} (h : (ps.map (·.components)).Nodup)
include h

/-- Paths of which no two are the same are sorted strictly. -/
theorem pairwise_mergeSort_of_nodup :
    (ps.mergeSort le).Pairwise fun p q => p.le q = true ∧ q.le p = false := by
  have hnodup := ((List.mergeSort_perm ps le).map (·.components)).nodup_iff.mpr h
  refine (pairwise_mergeSort ps).imp₂ (fun p q hle hne => ⟨hle, ?_⟩) (List.pairwise_map.mp hnodup)
  exact Bool.eq_false_iff.mpr fun hge => hne (listLe_antisymm hle hge)

/-- However paths are arranged of which no two are the same, they are sorted alike. -/
theorem mergeSort_eq_of_perm (hperm : qs.Perm ps) : qs.mergeSort le = ps.mergeSort le := by
  have hsorted : (qs.mergeSort le).Perm (ps.mergeSort le) :=
    (List.mergeSort_perm qs le).trans (hperm.trans (List.mergeSort_perm ps le).symm)
  refine hsorted.eq_of_pairwise (fun p q hp hq hle hge => ?_) (pairwise_mergeSort qs)
    (pairwise_mergeSort ps)
  have hp : p ∈ ps := hperm.mem_iff.mp (List.mem_mergeSort.mp hp)
  exact List.inj_on_of_nodup_map h hp (List.mem_mergeSort.mp hq) (listLe_antisymm hle hge)

end distinct

end Trellis.Path
