import Trellis.Proofs.Contract.RespelledProps
import Trellis.Proofs.TypeText.Comments

/-! # Comments in the types of props

What a comment in the type of a prop changes.

* `TypeText.Commented` says that one text of a type is another with a comment between two tokens,
  and `Source.Respells` with it that two sources differ in such comments.
* `ComponentProp.ReadsPast` says what stays of a prop then: it is required as before, unless the
  comment stands beside the only `undefined`; within an operand whose shape is decided elsewhere,
  nothing of it changes.
* `Analysis.reads_past_comments`: this holds of all props of all components of such sources. Beside
  `undefined` a comment does matter: `Analysis.comment_hides_undefined`. -/

namespace Trellis

open Text.Blank (IsGap)

namespace TypeText

variable {σ : Seam} {g m l f : List Char}

/-- Whether a comment may take the place of blanks between two tokens of a type that tells
something, so that a walk passes it. -/
structure Seam.Takes (σ : Seam) (g m : List Char) : Prop where
  /-- The place is outside of literals. -/
  isOpen : σ.IsOpen
  /-- Without the comment only blanks stand there. -/
  gap : IsGap g
  /-- With it there is a comment. -/
  comment : IsComment m
  /-- A walk passes it. -/
  passes : σ.Passes m
  /-- The type tells something. -/
  tells : PropMember.isVague (normalize (σ.text g)) = false

/-- Whether a text of a type is another one with a comment between two tokens. -/
def Commented (x x' : String) : Prop := ∃ σ g m, Seam.Takes σ g m ∧ x = σ.text g ∧ x' = σ.text m

/-- With a comment a type still tells something. -/
theorem keepsVague_commented : KeepsVague Commented := by
  rintro _ _ ⟨σ, g, m, h, rfl, rfl⟩
  rw [h.tells]
  exact (tells (Seam.splitBars_text h.isOpen h.passes) (Seam.slash_mem_operand h.comment)
    (by decide)).1

end TypeText

open TypeText

/-! ### Props -/

namespace ComponentProp

/-- Whether tests use two props alike. -/
structure UsedAlike (p p' : ComponentProp) : Prop where
  /-- Both must be passed, or none of them. -/
  isRequired : p'.isRequired = p.isRequired
  /-- Both are called back, or none of them. -/
  isCallback : p'.isCallback = p.isCallback
  /-- Both are truth values, or none of them. -/
  isBoolean : p'.isBoolean = p.isBoolean
  /-- They have one default value. -/
  value : ∀ f, Mock.value f p' = Mock.value f p

/-- What stays of a prop with a comment in its type. -/
structure ReadsPast (σ : Seam) (g m : List Char) (p p' : ComponentProp) : Prop where
  /-- The comment stands in the type. -/
  type : p.type = normalize (σ.text g) ∧ p'.type = normalize (σ.text m)
  /-- The type with the comment admits `undefined` just when another operand is it. -/
  undefined : includesUndefined p'.type = true ↔ ∃ o ∈ σ.others, bare o = "undefined".toList
  /-- It is required as before, unless the comment stands beside the only `undefined`. -/
  required : p'.isRequired = p.isRequired ∨
    (p.isRequired = false ∧ p'.isRequired = true) ∧
      bare (σ.operand g) = "undefined".toList ∧ ∀ o ∈ σ.others, bare o ≠ "undefined".toList
  /-- Within an operand whose shape is decided elsewhere, the comment changes nothing. -/
  within : ∀ l f, σ.Admits m → σ.Within g l f → p.UsedAlike p'

/-- Whether a prop is the same, or has a comment in its type and is read past it. -/
def ReadAlike (p p' : ComponentProp) : Prop :=
  p' = p ∨ p'.name = p.name ∧ ∃ σ g m, Seam.Takes σ g m ∧ p.ReadsPast σ g m p'

end ComponentProp

namespace PropMember

variable {p p' : PropMember} {σ : Seam} {g m : List Char}

theorem isRequired_finish (p : PropMember) : p.finish.isRequired =
    !(p.hasDefault || p.optional || includesUndefined p.type) :=
  rfl

/-- Props of types that are read alike are used alike. -/
theorem usedAlike_finish (h : p.Like Commented p') (ht : ReadsAlike p.type p'.type) :
    p.finish.UsedAlike p'.finish where
  isRequired := by
    rw [isRequired_finish, isRequired_finish, h.hasDefault, h.optional, ht.undefined]
  isCallback := by
    unfold finish
    dsimp only
    rw [h.called, h.name, ht.shape]
  isBoolean := by
    unfold finish
    dsimp only
    rw [decide_eq_false ht.boolean.1, decide_eq_false ht.boolean.2]
  value f := by
    have hcallback : p'.finish.isCallback = p.finish.isCallback := by
      unfold finish
      dsimp only
      rw [h.called, h.name, ht.shape]
    have hname : p'.finish.name = p.finish.name := h.name
    have hshape : TypeShape.classify p'.finish.type = TypeShape.classify p.finish.type := ht.shape
    unfold Mock.value Mock.fallback
    rw [hname, hshape, hcallback]

/-- A prop with a comment in its type is read past it. -/
theorem readsPast_finish (h : p.Like Commented p') (hσ : σ.Takes g m)
    (hp : p.type = normalize (σ.text g)) (hp' : p'.type = normalize (σ.text m)) :
    p.finish.ReadsPast σ g m p'.finish := by
  have hundefined := Seam.includesUndefined_comment hσ.isOpen hσ.passes hσ.comment
  rw [← hp'] at hundefined
  have hbefore := Seam.includesUndefined_iff hσ.isOpen (Seam.passes_gap hσ.gap)
  rw [← hp] at hbefore
  refine ⟨⟨hp, hp'⟩, hundefined, ?_, fun l f hm hin => usedAlike_finish h ?_⟩
  · rw [isRequired_finish, isRequired_finish, h.hasDefault, h.optional]
    by_cases hothers : ∃ o ∈ σ.others, bare o = "undefined".toList
    · rw [hundefined.mpr hothers, hbefore.mpr (.inr hothers)]
      exact .inl rfl
    · rw [Bool.eq_false_iff.mpr (mt hundefined.mp hothers)]
      by_cases hself : bare (σ.operand g) = "undefined".toList
      · rw [hbefore.mpr (.inl hself)]
        cases hkept : p.hasDefault || p.optional with
        | true => exact .inl rfl
        | false => exact .inr ⟨⟨rfl, rfl⟩, hself, fun o ho heq => hothers ⟨o, ho, heq⟩⟩
      · rw [Bool.eq_false_iff.mpr (mt hbefore.mp (not_or.mpr ⟨hself, hothers⟩))]
        exact .inl rfl
  · rw [hp, hp']
    exact Seam.readsAlike hσ.isOpen hσ.gap hm hin

end PropMember

/-- Props that are drawn from what is known of them, but for a comment, are read alike. -/
theorem ComponentProp.Like.readAlike {p p' : ComponentProp} (h : p.Like Commented p') :
    p.ReadAlike p' := by
  obtain ⟨m, m', hm, rfl, rfl⟩ := h
  rcases hm.type with htype | ⟨_, _, ⟨σ, g, c, hσ, rfl, rfl⟩, hp, hp'⟩
  · refine .inl ?_
    unfold PropMember.finish
    rw [hm.name, htype, hm.hasDefault, hm.optional, hm.called]
  · exact .inr ⟨hm.name, σ, g, c, hσ, PropMember.readsPast_finish hm hσ hp hp'⟩

/-! ### Components -/

theorem Component.Like.imp {R R' : ComponentProp → ComponentProp → Prop} {k k' : Component}
    (h : k.Like R k') (hR : ∀ p p', R p p' → R' p p') : k.Like R' k' :=
  ⟨h.name, h.exportKind, h.exportedAs, h.markupCount, h.props.imp hR⟩

namespace Analysis

/-- In sources that differ in comments in the types of props, the components are the same but for
elements and for props that are read alike. -/
theorem reads_past_comments {s s' : Source} {M M' : Modules} (hs : s.Respells Commented s')
    (hm : Modules.Agree (Source.Respells Commented) s s' M M') :
    List.Forall₂ (Component.Like ComponentProp.ReadAlike) (components M s) (components M' s') :=
  (components_respells keepsVague_commented hs hm).imp fun _ _ hk =>
    hk.imp fun _ _ hp => hp.readAlike

/-- A source of a component with a prop of some type. -/
def propOf (type : String) : Except LoadFault Source :=
  Source.ofText ⟨"A.tsx"⟩ ("export let A=(p:\x7ba:" ++ type ++ "\x7d)=><p/>")

/-- A comment. -/
def note : List Char := "/*c*/".toList

theorem admits_note (σ : Seam) : σ.Admits note := by
  have hplain : note.all (· ∉ marks) = true := by decide
  exact Seam.admits_of_plain ⟨[], note, [], rfl, .nil, .nil, by decide, by decide⟩ fun c hc =>
    of_decide_eq_true (List.all_eq_true.mp hplain c hc)

/-- Sources with and without the comment differ in it. -/
theorem respells_note {s s' : Source} {σ : Seam} (hσ : σ.IsOpen)
    (htells : PropMember.isVague (normalize (σ.text [])) = false)
    (h : s.Respells (fun x x' => x = σ.text [] ∧ x' = σ.text note) s') : s.Respells Commented s' :=
  h.mono fun _ _ hx =>
    ⟨σ, [], note, ⟨hσ, .nil, (admits_note σ).comment, (admits_note σ).passes, htells⟩, hx.1, hx.2⟩

/-- A place between the elements of a tuple. -/
def nestedSeam : Seam where
  before := "[string,".toList
  after := "number]".toList
  ends := ⟨',', rfl, rfl⟩
  starts := ⟨'n', rfl, rfl⟩
  stays := by decide
  barless := by decide

theorem nestedSeam_within : nestedSeam.Within [] "[string,".toList "number]".toList where
  bare := by decide +kernel
  framed := ⟨[], [], ⟨nofun, nofun⟩, by decide, by decide⟩
  left := ⟨⟨fun c hc => by cases hc; rfl, fun c hc => by cases hc; rfl⟩, by decide⟩
  right := ⟨⟨fun c hc => by cases hc; rfl, fun c hc => by cases hc; rfl⟩, by decide⟩
  decided := .opened (.inl (by decide))
  word := by
    rintro ⟨⟨c, hc, halpha⟩, -⟩
    cases hc
    cases halpha
  brackets h := absurd h.2 (by decide)

theorem reads_past_comments_nested : ∃ s s', propOf "[string,number]" = .ok s ∧
    propOf "[string,/*c*/number]" = .ok s' ∧ s.Respells Commented s' ∧
    List.Forall₂ (Component.Like ComponentProp.ReadAlike) (components Modules.none s)
      (components Modules.none s') ∧
    (∃ l f, nestedSeam.Admits note ∧ nestedSeam.Within [] l f) ∧
    (components Modules.none s').map (·.props) =
      [[⟨"a", "[string,/*c*/number]", true, false, false⟩]] := by
  have h : (propOf "[string,number]").toOption.any (fun s =>
      (propOf "[string,/*c*/number]").toOption.any fun s' =>
        s.Respells (fun x x' => x = nestedSeam.text [] ∧ x' = nestedSeam.text note) s' ∧
          (components Modules.none s').map (·.props) =
            [[⟨"a", "[string,/*c*/number]", true, false, false⟩]]) = true := by
    decide +kernel
  obtain ⟨s, hs, h⟩ := exists_ok_of_any h
  obtain ⟨s', hs', h⟩ := exists_ok_of_any h
  obtain ⟨hrespells, hprops⟩ := of_decide_eq_true h
  have hcommented := respells_note ⟨by decide, rfl, by decide⟩ (by decide) hrespells
  have hmodules : Modules.Agree (Source.Respells Commented) s s' Modules.none Modules.none :=
    .bounded rfl fun _ _ => .lost nofun nofun
  exact ⟨s, s', hs, hs', hcommented, reads_past_comments hcommented hmodules,
    ⟨_, _, admits_note _, nestedSeam_within⟩, hprops⟩

/-- A place before an operand. -/
def openSeam : Seam where
  before := "string|".toList
  after := "undefined".toList
  ends := ⟨'|', rfl, rfl⟩
  starts := ⟨'u', rfl, rfl⟩
  stays := by decide
  barless := by decide

/-- Beside `undefined` a comment hides it: the prop must then be passed. -/
theorem comment_hides_undefined : ∃ s s', propOf "string|undefined" = .ok s ∧
    propOf "string|/*c*/undefined" = .ok s' ∧ s.Respells Commented s' ∧
    (components Modules.none s).map (·.props.map (·.isRequired)) = [[false]] ∧
    (components Modules.none s').map (·.props.map (·.isRequired)) = [[true]] := by
  have h : (propOf "string|undefined").toOption.any (fun s =>
      (propOf "string|/*c*/undefined").toOption.any fun s' =>
        s.Respells (fun x x' => x = openSeam.text [] ∧ x' = openSeam.text note) s' ∧
          (components Modules.none s).map (·.props.map (·.isRequired)) = [[false]] ∧
            (components Modules.none s').map (·.props.map (·.isRequired)) = [[true]]) = true := by
    decide +kernel
  obtain ⟨s, hs, h⟩ := exists_ok_of_any h
  obtain ⟨s', hs', h⟩ := exists_ok_of_any h
  obtain ⟨hrespells, hprops⟩ := of_decide_eq_true h
  exact ⟨s, s', hs, hs', respells_note ⟨by decide, rfl, by decide⟩ (by decide) hrespells, hprops⟩

end Analysis

end Trellis
