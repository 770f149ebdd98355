import Trellis.Text.Search

/-! # Replacing a text by another

What `Search.replaceAll` does at the start of a text, and where it does nothing.

* `Search.replaceAll_append`, `Search.replaceAll_cons`: an occurrence is replaced, a character at which none
  starts is kept.
* `Search.occurrences` counts where a text occurs. `Search.replaceAll_skip`: a start of a text in which no
  occurrence begins is kept. -/

namespace Trellis.Text.Search

variable {old new : List Char}

/-! ### Step by step -/

theorem dropStart?_eq_none_iff {p s : List Char} : dropStart? p s = none ↔ ¬ p <+: s := by
  constructor
  · rintro h ⟨r, rfl⟩
    rw [dropStart?_append] at h
    cases h
  · intro h
    rw [Option.eq_none_iff_forall_ne_some]
    exact fun r hr => h ⟨r, (eq_append_of_dropStart? hr).symm⟩

/-- A bound on the characters left does not matter. -/
theorem go_congr (hold : old ≠ []) {m n : Nat} {s : List Char} (hm : s.length ≤ m)
    (hn : s.length ≤ n) : replaceAll.go old new m s = replaceAll.go old new n s := by
  induction m generalizing n s with
  | zero =>
      obtain rfl := List.length_eq_zero_iff.mp (Nat.le_zero.mp hm)
      cases n <;> rfl
  | succ m ih =>
      cases s with
      | nil => cases n <;> rfl
      | cons c s =>
          cases n with
          | zero => cases hn
          | succ n =>
              rw [List.length_cons] at hm hn
              rw [replaceAll.go, replaceAll.go]
              split
              · next r hr =>
                have hlength := length_of_dropStart? hr
                have hpos := List.length_pos_iff.mpr hold
                rw [List.length_cons] at hlength
                exact congrArg _ (ih (by omega) (by omega))
              · exact congrArg _ (ih (by omega) (by omega))

theorem replaceAll_eq (hold : old ≠ []) {n : Nat} {s : List Char} (hn : s.length ≤ n) :
    replaceAll old new s = replaceAll.go old new n s := by
  rw [replaceAll, if_neg (by simpa using hold)]
  exact go_congr hold (Nat.le_refl _) hn

@[simp] theorem replaceAll_nil (old new : List Char) : replaceAll old new [] = [] := by
  rw [replaceAll, List.length_nil, replaceAll.go]
  split <;> rfl

/-- An occurrence is replaced. -/
theorem replaceAll_append (hold : old ≠ []) (s : List Char) :
    replaceAll old new (old ++ s) = new ++ replaceAll old new s := by
  obtain ⟨c, rest, rfl⟩ := List.exists_cons_of_ne_nil hold
  rw [replaceAll_eq hold (Nat.le_succ _), List.cons_append, replaceAll.go, ← List.cons_append,
    dropStart?_append]
  dsimp only
  rw [← replaceAll_eq hold]
  rw [List.length_append]
  omega

/-- A character at which no occurrence starts is kept. -/
theorem replaceAll_cons {c : Char} {s : List Char} (h : ¬ old <+: c :: s) :
    replaceAll old new (c :: s) = c :: replaceAll old new s := by
  have hold : old ≠ [] := by
    rintro rfl
    exact h List.nil_prefix
  rw [replaceAll_eq hold (Nat.le_refl _), List.length_cons, replaceAll.go,
    dropStart?_eq_none_iff.mpr h]
  dsimp only
  rw [← replaceAll_eq hold (Nat.le_refl _)]

/-- A character is replaced by another wherever it stands. -/
theorem replaceAll_singleton (a b : Char) (s : List Char) :
    replaceAll [a] [b] s = s.map fun c => if c = a then b else c := by
  induction s with
  | nil => exact replaceAll_nil _ _
  | cons c s ih =>
      rw [List.map_cons]
      by_cases hc : c = a
      · rw [if_pos hc, ← ih, hc]
        exact replaceAll_append (List.cons_ne_nil a []) s
      · rw [if_neg hc, ← ih]
        exact replaceAll_cons fun hp => hc (List.cons_prefix_cons.mp hp).1.symm

/-! ### Occurrences -/

/-- How often a text occurs in another. -/
def occurrences (p : List Char) : List Char → Nat
  | [] => 0
  | c :: s => (if p <+: c :: s then 1 else 0) + occurrences p s

theorem occurrences_le_append (p before s : List Char) :
    occurrences p s ≤ occurrences p (before ++ s) := by
  induction before with
  | nil => exact Nat.le_refl _
  | cons c before ih =>
      rw [List.cons_append, occurrences]
      exact Nat.le_add_left_of_le ih

/-- No occurrence begins where its first character is missing. -/
theorem occurrences_append {c : Char} {before : List Char} (h : c ∉ before) (p s : List Char) :
    occurrences (c :: p) (before ++ s) = occurrences (c :: p) s := by
  induction before with
  | nil => rfl
  | cons d before ih =>
      rw [List.mem_cons, not_or] at h
      rw [List.cons_append, occurrences, if_neg fun hp => h.1 (List.cons_prefix_cons.mp hp).1,
        Nat.zero_add, ih h.2]

/-- A start of a text in which no occurrence begins is kept. -/
theorem replaceAll_skip {before s : List Char}
    (h : occurrences old (before ++ s) ≤ occurrences old s) :
    replaceAll old new (before ++ s) = before ++ replaceAll old new s := by
  induction before with
  | nil => rfl
  | cons c before ih =>
      have hle := occurrences_le_append old before s
      rw [List.cons_append, occurrences] at h
      split at h
      · omega
      · next hstart =>
        rw [List.cons_append, replaceAll_cons hstart, ih (by omega), List.cons_append]

end Trellis.Text.Search
