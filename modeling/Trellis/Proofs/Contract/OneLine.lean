import Trellis.Proofs.Contract.Merging
import Trellis.Proofs.Contract.Resolution
import Trellis.Proofs.Text.Blanks
import Trellis.Proofs.TypeText.Shapes

/-! # Types on one line

The types of props are texts on one line, however they are written in the source.

* `TypeText.notMem_normalize`: no line ends in a normalized text.
* `TypeText.literal_notMem`: nor in a literal of a type on one line.
* `Expansion.forall_members_ofType`: what holds of the types of members in braces, and of that of
  children, holds of the types of all members of a type written out.
* `Analysis.type_notMem`: no line ends in the type of a prop of a component. -/

namespace Trellis

open Syntax

/-! ### Normalized texts -/

namespace Text

theorem Blank.notMem_squeeze (s : List Char) : '\n' ∉ squeeze s := by
  induction s with
  | nil => exact List.not_mem_nil
  | cons c s ih =>
      rw [squeeze]
      split
      · rw [List.mem_cons, not_or]
        exact ⟨by decide, fun h => ih (mem_of_mem_trimStart h)⟩
      · next hc =>
        rw [List.mem_cons, not_or]
        refine ⟨?_, ih⟩
        rintro rfl
        exact hc (by decide)

theorem Blank.mem_of_mem_trim {c : Char} {s : List Char} (h : c ∈ trim s) : c ∈ s :=
  mem_of_mem_trimStart (mem_of_mem_trimEnd h)

theorem Search.mem_of_mem_dropStarts {p : List Char} {n : Nat} {s : List Char} {c : Char}
    (h : c ∈ dropStarts p n s) : c ∈ s := by
  induction n generalizing s with
  | zero => exact h
  | succ n ih =>
      rw [dropStarts] at h
      split at h
      · next r hr =>
        rw [eq_append_of_dropStart? hr]
        exact List.mem_append_right p (ih h)
      · exact h

/-- Every piece of a text consists of characters of it. -/
theorem Search.mem_of_mem_splitWhere {p : Char → Bool} {s piece : List Char} {c : Char}
    (hpiece : piece ∈ splitWhere p s) (h : c ∈ piece) : c ∈ s := by
  induction s generalizing piece with
  | nil =>
      rw [splitWhere, List.mem_singleton] at hpiece
      rw [hpiece] at h
      cases h
  | cons d s ih =>
      rw [splitWhere.eq_2] at hpiece
      cases hs : splitWhere p s with
      | nil => exact absurd hs (splitWhere_ne_nil p s)
      | cons first more =>
          rw [hs] at hpiece ih
          dsimp only at hpiece
          split at hpiece
          · rcases List.mem_cons.mp hpiece with rfl | hpiece
            · cases h
            · exact List.mem_cons_of_mem d (ih hpiece h)
          · rcases List.mem_cons.mp hpiece with rfl | hpiece
            · rcases List.mem_cons.mp h with rfl | h
              · exact List.mem_cons_self
              · exact List.mem_cons_of_mem d (ih List.mem_cons_self h)
            · exact List.mem_cons_of_mem d (ih (List.mem_cons_of_mem first hpiece) h)

variable {c : Char} {s : String}

theorem mem_of_mem_trim (h : c ∈ (trim s).toList) : c ∈ s.toList := by
  rw [trim, String.toList_ofList] at h
  exact Blank.mem_of_mem_trim h

theorem mem_of_mem_dropStarts {p : String} (h : c ∈ (dropStarts s p).toList) : c ∈ s.toList := by
  rw [dropStarts, String.toList_ofList] at h
  exact Search.mem_of_mem_dropStarts h

theorem mem_of_mem_dropEnds {p : String} (h : c ∈ (dropEnds s p).toList) : c ∈ s.toList := by
  rw [dropEnds, String.toList_ofList, List.mem_reverse] at h
  exact List.mem_reverse.mp (Search.mem_of_mem_dropStarts h)

theorem notMem_append {a b : String} (ha : '\n' ∉ a.toList) (hb : '\n' ∉ b.toList) :
    '\n' ∉ (a ++ b).toList := by
  rw [String.toList_append, List.mem_append, not_or]
  exact ⟨ha, hb⟩

/-- No line ends between texts that are joined on one line. -/
theorem notMem_intercalate {sep : String} {ss : List String} (hsep : '\n' ∉ sep.toList)
    (h : ∀ s ∈ ss, '\n' ∉ s.toList) : '\n' ∉ (String.intercalate sep ss).toList := by
  rw [String.toList_intercalate]
  induction ss with
  | nil => simp
  | cons s ss ih =>
      rw [List.forall_mem_cons] at h
      cases ss with
      | nil => simpa using h.1
      | cons t ss =>
          rw [List.map_cons, List.map_cons, List.intercalate_cons_cons, List.mem_append,
            List.mem_append, not_or, not_or]
          exact ⟨⟨h.1, hsep⟩, ih h.2⟩

end Text

/-- No line ends in a normalized text. -/
theorem TypeText.notMem_normalize (text : String) : '\n' ∉ (normalize text).toList := by
  intro h
  rw [normalize, String.toList_ofList] at h
  have hcollapsed := Text.Blank.mem_of_mem_trim h
  have hstart := List.dropWhile_sublist _ |>.subset hcollapsed
  rw [List.mem_reverse] at hstart
  have hend := List.mem_reverse.mp (List.dropWhile_sublist _ |>.subset hstart)
  rw [Text.collapse_eq, String.toList_ofList] at hend
  exact Text.Blank.notMem_squeeze _ (Text.Blank.mem_of_mem_trim hend)

/-! ### Literals of types -/

namespace TypeText

variable {c : Char} {s piece m : List Char}

theorem mem_of_mem_splitBars {scan : Scan} (hpiece : piece ∈ splitBars scan s) (h : c ∈ piece) :
    c ∈ s := by
  induction s generalizing scan piece with
  | nil =>
      rw [splitBars, List.mem_singleton] at hpiece
      rw [hpiece] at h
      cases h
  | cons d s ih =>
      rw [splitBars] at hpiece
      split at hpiece
      · rcases List.mem_cons.mp hpiece with rfl | hpiece
        · cases h
        · exact List.mem_cons_of_mem d (ih hpiece h)
      · split at hpiece
        · next first more hs =>
          rcases List.mem_cons.mp hpiece with rfl | hpiece
          · rcases List.mem_cons.mp h with rfl | h
            · exact List.mem_cons_self
            · exact List.mem_cons_of_mem d (ih (hs ▸ List.mem_cons_self) h)
          · exact List.mem_cons_of_mem d (ih (hs ▸ List.mem_cons_of_mem first hpiece) h)
        · rw [List.mem_singleton.mp hpiece, List.mem_singleton] at h
          exact h ▸ List.mem_cons_self

theorem mem_of_mem_stripParens {n : Nat} (h : c ∈ stripParens n s) : c ∈ s := by
  induction n generalizing s with
  | zero => exact h
  | succ n ih =>
      rw [stripParens] at h
      split at h
      · next inner hinner =>
        have hmem := Text.Blank.mem_of_mem_trim (ih h)
        unfold unwrap? at hinner
        split at hinner
        · split at hinner
          · cases hinner
            exact List.mem_cons_of_mem _ (List.dropLast_subset _ hmem)
          · cases hinner
        · cases hinner
      · exact h

/-- Every member of a union consists of characters of it. -/
theorem mem_of_mem_members (hm : m ∈ members s) (h : c ∈ m) : c ∈ s := by
  obtain ⟨piece, hpiece, rfl⟩ := List.mem_map.mp (List.mem_filter.mp hm).1
  exact mem_of_mem_splitBars hpiece (Text.Blank.mem_of_mem_trim (mem_of_mem_stripParens h))

/-- A literal that is kept is the whole member. -/
theorem literal_eq {x : String} (h : shapeOfMember m = .string (some x) ∨
    shapeOfMember m = .number (some x)) : x.toList = m := by
  rcases h with h | h
  · rw [(eq_of_shapeOfMember h).1, String.toList_ofList]
  · unfold shapeOfMember at h
    repeat' split at h
    all_goals try cases h
    · exact String.toList_ofList
    · exact absurd h (shapeOfName_ne _ x).2

/-- No line ends in a literal of a type on one line. -/
theorem literal_notMem {text x : String} (h : TypeShape.classify text = .string (some x) ∨
    TypeShape.classify text = .number (some x)) (ht : '\n' ∉ text.toList) : '\n' ∉ x.toList := by
  have hmember : ∃ m ∈ members text.toList, x.toList = m := by
    rcases h with h | h
    · obtain ⟨m, hmem, hm⟩ := TypeShape.exists_member h nofun
      exact ⟨m, hmem, literal_eq (.inl hm)⟩
    · obtain ⟨m, hmem, hm⟩ := TypeShape.exists_member h nofun
      exact ⟨m, hmem, literal_eq (.inr hm)⟩
  obtain ⟨m, hmem, hx⟩ := hmember
  rw [hx]
  exact fun hbreak => ht (mem_of_mem_members hmem hbreak)

end TypeText

/-! ### Members of types -/

namespace TypeMember

/-- No line ends in the type of a member in braces. -/
theorem type_notMem_ofBody {s : Source} {body : Tree} {m : PropMember} (h : m ∈ ofBody s body) :
    '\n' ∉ m.type.toList := by
  obtain ⟨t, -, ht⟩ := List.mem_filterMap.mp h
  obtain ⟨name, -, ht⟩ := Option.bind_eq_some_iff.mp ht
  dsimp only at ht
  split at ht
  · cases ht
    unfold ofProperty
    cases (t.part? .type).bind Tree.content? with
    | none => exact (by decide : '\n' ∉ "any".toList)
    | some type => exact TypeText.notMem_normalize _
  · cases ht
    exact TypeText.notMem_normalize _
  · cases ht

end TypeMember

namespace Expansion

variable {P : String → Prop} {modules : Modules} {s : Source}

/-- What holds of the types of the members in braces, and of that of children, holds of the types of the
members of a form if it does for those of the names and types in it. -/
theorem forall_members_formOf (hown : ∀ b, ∀ m ∈ TypeMember.ofBody s b, P m.type)
    (hchildren : P children.type) {named : String → List PropMember}
    {inner : Tree → List PropMember} (hnamed : ∀ n, ∀ m ∈ named n, P m.type)
    (hinner : ∀ x, ∀ m ∈ inner x, P m.type) (t : Tree) :
    ∀ m ∈ (formOf s t).members named inner, P m.type := by
  have hargument : ∀ m ∈ (argumentsOf t).head?.elim [] inner, P m.type := by
    cases (argumentsOf t).head? with
    | none => exact List.forall_mem_nil _
    | some a => exact hinner a
  unfold formOf
  split
  · exact hown t
  · exact hown t
  · exact hnamed _
  · cases t.part? .name with
    | none => exact List.forall_mem_nil _
    | some name =>
        rw [Option.elim_some]
        unfold formOfApplied
        dsimp only
        split
        · -- a type with children
          intro m hm
          rcases List.mem_append.mp hm with hm | hm
          · exact hargument m hm
          · rwa [List.mem_singleton.mp hm]
        · intro m hm
          obtain ⟨m', hm', rfl⟩ := List.mem_map.mp hm
          exact hargument m' hm'
        · intro m hm
          obtain ⟨m', hm', rfl⟩ := List.mem_map.mp hm
          exact hargument m' hm'
        · exact hargument
        · exact fun m hm => hargument m (List.mem_filter.mp hm).1
        · exact fun m hm => hargument m (List.mem_filter.mp hm).1
        · split
          · exact hnamed _
          · exact List.forall_mem_nil _
  · intro m hm
    obtain ⟨x, -, hm⟩ := List.mem_flatMap.mp hm
    exact hinner x m hm
  · exact List.forall_mem_nil _

/-- What holds of the types of the members in braces, and of that of children, holds of the types of all
members of a type written out. -/
theorem forall_members_ofType (hown : ∀ s b, ∀ m ∈ TypeMember.ofBody s b, P m.type)
    (hchildren : P children.type) (level : Nat) (places : List Place) (s : Source) (type : Tree) :
    ∀ m ∈ (ofType modules level places s type).members, P m.type := by
  induction level using Nat.strong_induction_on generalizing places s type with
  | _ level ih =>
      cases level with
      | zero =>
          rw [ofType, members_nothing]
          exact List.forall_mem_nil _
      | succ level =>
          rw [ofType_succ]
          cases peel type with
          | none =>
              rw [Option.map_none, Option.getD_none, members_nothing]
              exact List.forall_mem_nil _
          | some t =>
              rw [Option.map_some, Option.getD_some, members_ofLevel]
              refine forall_members_formOf (hown s) hchildren (fun n => ?_)
                (fun x => ih level (Nat.lt_succ_self level) places s x) t
              -- a name stands for the types and the members of its declaration
              rw [ofName_eq, members_ofNameAt]
              cases (locate modules modules.reach places s n).2 with
              | none => exact List.forall_mem_nil _
              | some f =>
                  intro m hm
                  rcases List.mem_append.mp hm with hm | hm
                  · obtain ⟨x, -, hm⟩ := List.mem_flatMap.mp hm
                    exact ih _ (by omega) _ _ x m hm
                  · unfold ownOf at hm
                    split at hm
                    · cases hbody : f.declaration.part? .body with
                      | none =>
                          rw [hbody] at hm
                          cases hm
                      | some b =>
                          rw [hbody] at hm
                          exact hown f.source b m hm
                    · cases hm

end Expansion

/-! ### Mentions -/

namespace Mention

/-- No line ends in the type for which a check stands. -/
theorem notMem_typeOfCheck {check : String} (h : '\n' ∉ check.toList) :
    '\n' ∉ (typeOfCheck check).1.toList := by
  have hunion : '\n' ∉ (unionOfCheck check).toList := by
    unfold unionOfCheck
    dsimp only
    split
    · refine Text.notMem_intercalate (by decide) fun s hs hmem => h ?_
      obtain ⟨piece, hpiece, rfl⟩ := List.mem_map.mp hs
      obtain ⟨x, hx, rfl⟩ := List.mem_map.mp (List.mem_filter.mp hpiece).1
      rw [String.toList_ofList] at hmem
      have hinner := Text.Search.mem_of_mem_splitWhere hx (Text.Blank.mem_of_mem_trim hmem)
      exact Text.mem_of_mem_dropStarts (Text.mem_of_mem_dropEnds (Text.mem_of_mem_trim
        (Text.mem_of_mem_dropStarts (Text.mem_of_mem_dropEnds hinner))))
    · decide
  unfold typeOfCheck
  generalize unionOfCheck check = union at hunion ⊢
  generalize String.ofList (check.toList.takeWhile (· ≠ '(')) = word
  split
  all_goals first | exact hunion | decide

/-- Whether no line ends in the type that a mention gives, if it gives one. -/
def OnOneLine (m : Mention) : Prop := ∀ d, m = typed d → '\n' ∉ d.type.toList

theorem onOneLine_seen (name : String) (b : Bool) : (seen name b).OnOneLine := nofun

theorem onOneLine_ofCheck (name check : String) : (ofCheck name check).OnOneLine := by
  have htype : '\n' ∉ (typeOfCheck (Text.dropStarts
      (Text.dropEnds (TypeText.normalize check) ".isRequired") "PropTypes.")).1.toList :=
    notMem_typeOfCheck fun hmem => TypeText.notMem_normalize check
      (Text.mem_of_mem_dropEnds (Text.mem_of_mem_dropStarts hmem))
  unfold ofCheck
  dsimp only
  generalize typeOfCheck _ = found at htype ⊢
  rintro _ ⟨⟩
  exact htype

theorem onOneLine_of_mem_ofStatement {component : String} {t : Tree} {m : Mention}
    (h : m ∈ ofStatement component t) : m.OnOneLine := by
  unfold ofStatement at h
  dsimp only at h
  split at h
  · split at h
    · cases h
    · split at h
      · obtain ⟨e, -, he⟩ := List.mem_map.mp h
        exact he ▸ onOneLine_ofCheck e.1 e.2
      · split at h
        · obtain ⟨e, -, he⟩ := List.mem_map.mp h
          exact he ▸ onOneLine_seen e.1 true
        · cases h
  · cases h

theorem onOneLine_of_mem_ofPattern {t : Tree} {m : Mention} (h : m ∈ ofPattern t) :
    m.OnOneLine := by
  obtain ⟨e, -, he⟩ := List.mem_filterMap.mp h
  unfold ofEntry? at he
  split at he
  · cases he
    exact onOneLine_seen _ _
  · obtain ⟨left, -, he⟩ := Option.bind_eq_some_iff.mp he
    cases he
    exact onOneLine_seen _ _
  · obtain ⟨key, -, he⟩ := Option.bind_eq_some_iff.mp he
    cases he
    exact onOneLine_seen _ _
  · cases he

/-- A use of the props gives no type. -/
theorem onOneLine_of_mem_ofBody {props : String} {t : Tree} {m : Mention} (h : m ∈ ofBody props t) :
    m.OnOneLine := by
  obtain ⟨d, -, hd⟩ := List.mem_flatMap.mp h
  unfold ofUse at hd
  split at hd
  · split at hd
    · split at hd
      · rw [List.mem_singleton.mp hd]
        exact onOneLine_seen _ _
      · cases hd
    · cases hd
  · split at hd
    · split at hd
      · exact onOneLine_of_mem_ofPattern hd
      · cases hd
    · cases hd
  · cases hd

/-- Mentions that give types on one line leave props with types on one line. -/
theorem type_notMem_run {ms : List Mention} (h : ∀ m ∈ ms, m.OnOneLine) :
    ∀ p ∈ run ms, '\n' ∉ p.type.toList := by
  intro p hp
  rw [run_eq] at hp
  obtain ⟨n, -, rfl⟩ := List.mem_map.mp hp
  change '\n' ∉ (settled ms n).type.toList
  unfold settled
  cases hs : settling? ms n with
  | none => exact (by decide : '\n' ∉ "unknown".toList)
  | some d =>
      obtain ⟨m, hm, hd⟩ := List.mem_filterMap.mp
        (List.mem_filter.mp (mem_declarations_of_settling ms hs)).1
      cases m with
      | typed m =>
          cases hd
          exact h _ hm d rfl
      | seen => cases hd

end Mention

/-- No line ends in the type of a member of the declared props. -/
theorem Candidate.type_notMem_expansion {modules : Modules} {s : Source} (cand : Candidate)
    {d : PropMember} (h : d ∈ (cand.expansion modules s).members) : '\n' ∉ d.type.toList := by
  unfold expansion at h
  cases ht : cand.propsType? with
  | none =>
      rw [ht, Option.map_none, Option.getD_none, Expansion.members_nothing] at h
      cases h
  | some t =>
      rw [ht, Option.map_some, Option.getD_some] at h
      exact Expansion.forall_members_ofType (P := fun type => '\n' ∉ type.toList)
        (fun _ _ _ => TypeMember.type_notMem_ofBody) (by decide) _ _ _ t d h

/-- No line ends in the type of a prop of a component. -/
theorem Analysis.type_notMem {modules : Modules} {s : Source} {c : Component}
    (h : c ∈ components modules s) {p : ComponentProp} (hp : p ∈ c.props) :
    '\n' ∉ p.type.toList := by
  obtain ⟨⟨cand, kind, exported⟩, -, hc⟩ := List.mem_filterMap.mp h
  rw [Candidate.props_of_component? hc] at hp
  obtain ⟨m, hm, rfl⟩ := List.mem_map.mp hp
  refine Mention.type_notMem_run (fun x hx => ?_) m hm
  rcases List.mem_append.mp hx with hx | hx
  · rcases List.mem_append.mp hx with hx | hx
    · obtain ⟨d, hd, rfl⟩ := List.mem_map.mp hx
      rintro _ ⟨⟩
      exact cand.type_notMem_expansion hd
    · unfold Candidate.uses at hx
      split at hx
      · split at hx
        · exact Mention.onOneLine_of_mem_ofPattern hx
        · cases hbody : cand.function.part? .body with
          | none =>
              rw [hbody] at hx
              cases hx
          | some b =>
              rw [hbody] at hx
              exact Mention.onOneLine_of_mem_ofBody hx
        · cases hx
      · cases hx
  · obtain ⟨t, -, ht⟩ := List.mem_flatMap.mp hx
    exact Mention.onOneLine_of_mem_ofStatement ht

end Trellis
