import Trellis.TypeText.Shape

/-! # Shapes of members

* `TypeShape.exists_member`: a shape that is known is that of a member.
* `TypeText.shapeOfMember_literal` says how the literals of a type begin, and
  `TypeText.eq_of_shapeOfMember` that such a literal is the whole member. -/

namespace Trellis

/-! ### Agreement -/

/-- A shape that is known is that of a member. -/
theorem TypeShape.exists_member {text : String} {x : TypeShape} (h : classify text = x)
    (hx : x ≠ .unknown) : ∃ m ∈ TypeText.members text.toList, TypeText.shapeOfMember m = x := by
  have hagree : ∀ {shapes : List TypeShape}, agree shapes = x → x ∈ shapes := by
    intro shapes ha
    cases shapes with
    | nil => exact absurd ha.symm hx
    | cons first rest =>
        simp only [agree] at ha
        by_cases hall : rest.all (sameKind · first) = true
        · rw [if_pos hall] at ha
          rw [ha]
          exact List.mem_cons_self
        · rw [if_neg hall] at ha
          exact absurd ha.symm hx
  obtain ⟨m, hmem, hm⟩ := List.mem_map.mp (hagree h)
  exact ⟨m, (List.mem_filter.mp hmem).1, hm⟩

theorem TypeShape.sameKind_callback {shape : TypeShape} :
    sameKind shape callback = true ↔ shape = callback := by
  cases shape <;> simp [sameKind]

/-- Shapes that are like the first of them agree on it. -/
theorem TypeShape.agree_cons {first : TypeShape} {rest : List TypeShape}
    (h : ∀ shape ∈ rest, sameKind shape first = true) : agree (first :: rest) = first := by
  rw [agree, if_pos (List.all_eq_true.mpr h)]

/-! ### Literals of types -/

/-- A name of a type is no literal. -/
theorem TypeText.shapeOfName_ne (base : List Char) (x : String) :
    shapeOfName base ≠ .string (some x) ∧ shapeOfName base ≠ .number (some x) := by
  unfold shapeOfName
  dsimp only
  repeat' split
  all_goals exact ⟨nofun, nofun⟩

/-- A literal of a type is quoted if it is a text, and reads as a number otherwise. -/
theorem TypeText.shapeOfMember_literal (m : List Char) (x : String) :
    (shapeOfMember m = .string (some x) → isStringLiteral x.toList = true) ∧
      (shapeOfMember m = .number (some x) → (Decimal.Binary.read? x.toList).isSome = true) := by
  unfold shapeOfMember
  split
  · exact ⟨nofun, nofun⟩
  · split
    · exact ⟨nofun, nofun⟩
    · split
      · exact ⟨nofun, nofun⟩
      · split
        · rename_i hquoted
          refine ⟨fun h => ?_, nofun⟩
          cases h
          rwa [String.toList_ofList]
        · split
          · exact ⟨nofun, nofun⟩
          · split
            · rename_i hnumber
              refine ⟨nofun, fun h => ?_⟩
              cases h
              rwa [String.toList_ofList]
            · exact ⟨fun h => absurd h (shapeOfName_ne _ x).1,
                fun h => absurd h (shapeOfName_ne _ x).2⟩

/-- A text that is kept is the whole member, in quotes and with no arrow. -/
theorem TypeText.eq_of_shapeOfMember {m : List Char} {x : String}
    (h : shapeOfMember m = .string (some x)) :
    x = String.ofList m ∧ isStringLiteral m = true ∧ hasTopArrow .start m = false := by
  unfold shapeOfMember at h
  split at h
  · cases h
  · next harrow =>
    split at h
    · cases h
    · split at h
      · cases h
      · split at h
        · next hquoted =>
          cases h
          exact ⟨rfl, hquoted, Bool.eq_false_iff.mpr harrow⟩
        · split at h
          · cases h
          · split at h
            · cases h
            · exact absurd h (shapeOfName_ne _ x).1

end Trellis
