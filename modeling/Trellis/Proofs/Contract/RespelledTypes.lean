import Trellis.Proofs.Contract.Respelled

/-! # Types that are spelled in another way

What types stand for in sources that are related.

* `PropMember.Like` says of two mentions of a prop that they are the same, but for types with texts
  that are related.
* `TypeMember.ofBody_respells`: related braces have members that are alike.
  `Expansion.formOf_respells`: related types are made of what is related.
* `Expansion.translates_respells`: so related types, written out, have members that are alike. -/

namespace Trellis

open Syntax TypeMember

variable {T : String → String → Prop} {s s' : Source} {t t' a a' : Tree}

/-! ### Members -/

/-- Whether two mentions of a prop are the same, but for types with texts that are related. -/
structure PropMember.Like (T : String → String → Prop) (p p' : PropMember) : Prop where
  /-- They have one name. -/
  name : p'.name = p.name
  /-- Both types say that it may be left out, or none does. -/
  optional : p'.optional = p.optional
  /-- Both have a value for it, or none has. -/
  hasDefault : p'.hasDefault = p.hasDefault
  /-- Both are functions, or none is. -/
  called : p'.called = p.called
  /-- Their types are the same, or have texts that are related. -/
  type : p'.type = p.type ∨
    ∃ x x', T x x' ∧ p.type = TypeText.normalize x ∧ p'.type = TypeText.normalize x'

theorem PropMember.Like.refl (p : PropMember) : p.Like T p := ⟨rfl, rfl, rfl, rfl, .inl rfl⟩

namespace TypeMember

theorem typeOf?_same (h : t.Same t') : Option.Rel Tree.Same (typeOf? t) (typeOf? t') := by
  have htype := h.part? .type
  unfold typeOf?
  generalize t.part? .type = x at htype
  generalize t'.part? .type = x' at htype
  cases htype with
  | none => exact .none
  | some h => exact h.content?

theorem signatureOf_unlined (t : Tree) : signatureOf t.unlined = signatureOf t := by
  unfold signatureOf
  rw [Tree.part?_unlined, Tree.part?_unlined]
  cases t.part? .parameters <;> cases t.part? .returnType <;>
    simp [Function.comp_def]

/-- Members that are the same but for lines are related. -/
theorem respellsMember_of_same (h : t.Same t') : t.RespellsMember T t' where
  kind := h.kind
  name := Tree.map_eq_of_rel_same (h.part? .name) Tree.text_unlined
  optional := h.eq_of_unlined (f := (·.hasMark "?")) fun t => t.hasMark_unlined "?"
  type := by
    have htype := typeOf?_same h
    generalize typeOf? t = a at htype
    generalize typeOf? t' = a' at htype
    cases htype with
    | none => exact .none
    | some h => exact .some ⟨h.kind, .inl h.text⟩
  signature _ := .inl (h.eq_of_unlined signatureOf_unlined)

/-- A type is a function's, or a name of one, however other types are spelled. -/
theorem isCalled_respells (hs : s.Respells T s') (h : a.RespellsText T a') :
    isCalled s' a' = isCalled s a := by
  unfold isCalled isCallKind
  rw [h.kind]
  by_cases hk : a.kind = .typeIdentifier
  · have htext : a'.text = a.text := h.text.resolve_right fun hno => hno.1 hk
    have hdeclaration := hs.declaresBy.declaration a.text
    rw [htext]
    generalize declaration? s a.text = d at hdeclaration
    generalize declaration? s' a.text = d' at hdeclaration
    cases hdeclaration with
    | none => rfl
    | @some d d' hd =>
        rw [Option.filter_some, Option.filter_some, hd.1.kind]
        by_cases halias : d.kind = .typeAliasDeclaration
        · have hvalue := hd.1.part? (Tree.not_isMember_of_kind (by decide) halias)
            (l := .value) (by decide)
          rw [decide_eq_true halias, if_pos rfl, if_pos rfl, Option.bind_some, Option.bind_some]
          generalize d.part? .value = v at hvalue
          generalize d'.part? .value = v' at hvalue
          cases hvalue with
          | none => rfl
          | some hv => rw [Option.any_some, Option.any_some, hv.kind]
        · rw [decide_eq_false halias]
          rfl
  · rw [decide_eq_false hk, Bool.false_and, Bool.false_and]

theorem ofTree?_eq_none (h : memberKinds.contains t.kind = false) : ofTree? s t = none := by
  unfold ofTree?
  cases t.part? .name with
  | none => rfl
  | some n =>
      rw [Option.bind_eq_bind, Option.bind_some]
      split
      · rename_i hk
        rw [hk] at h
        cases h
      · rename_i hk
        rw [hk] at h
        cases h
      · rfl

theorem ofProperty_eq (s : Source) (name : String) (t : Tree) : ofProperty s name t =
    ⟨name, ((typeOf? t).map fun a => TypeText.normalize a.text).getD "any", t.hasMark "?", false,
      (typeOf? t).any (isCalled s)⟩ :=
  rfl

/-- Related members are like mentions of a prop, or none is one. -/
theorem ofTree?_respellsMember (hs : s.Respells T s') (h : t.RespellsMember T t') :
    Option.Rel (PropMember.Like T) (ofTree? s t) (ofTree? s' t') := by
  have hname := h.name
  unfold ofTree?
  generalize t.part? .name = n at hname
  generalize t'.part? .name = n' at hname
  cases n with
  | none =>
      cases n' with
      | none => exact .none
      | some n' => cases hname
  | some n =>
      cases n' with
      | none => cases hname
      | some n' =>
          have htext : n'.text = n.text := Option.some.inj hname
          rw [Option.bind_eq_bind, Option.bind_some, Option.bind_some, h.kind, htext]
          split
          · have htype := h.type
            dsimp only
            rw [ofProperty_eq, ofProperty_eq, h.optional]
            generalize typeOf? t = a at htype
            generalize typeOf? t' = a' at htype
            cases htype with
            | none => exact .some (.refl _)
            | some ha =>
                refine .some ⟨rfl, rfl, rfl, isCalled_respells hs ha, ?_⟩
                refine ha.text.imp (congrArg TypeText.normalize) fun hT => ?_
                exact ⟨_, _, hT.2, rfl, rfl⟩
          · rename_i hk
            refine .some ⟨rfl, h.optional, rfl, rfl, ?_⟩
            refine (h.signature hk).imp (congrArg TypeText.normalize) fun hT => ?_
            exact ⟨_, _, hT, rfl, rfl⟩
          · exact .none

/-- Related trees are like mentions of a prop, or none is one. -/
theorem ofTree?_respells (hs : s.Respells T s') (h : t.Respells T t') :
    Option.Rel (PropMember.Like T) (ofTree? s t) (ofTree? s' t') := by
  rcases Tree.respells_iff.mp h with h | h | h
  · exact ofTree?_respellsMember hs (respellsMember_of_same h)
  · exact ofTree?_respellsMember hs h.2.2
  · have hk : memberKinds.contains t.kind = false := by
      have hframes : ∀ k ∈ Tree.frameKinds, memberKinds.contains k = false := by decide
      exact hframes _ (List.contains_iff_mem.mp h.1.frame)
    rw [ofTree?_eq_none hk, ofTree?_eq_none (h.1.kind ▸ hk)]
    exact .none

/-- Related braces have members that are alike. -/
theorem ofBody_respells (hs : s.Respells T s') (h : t.Respells T t') (hm : ¬ t.IsMember) :
    List.Forall₂ (PropMember.Like T) (ofBody s t) (ofBody s' t') := by
  refine h.filterMap_parts hm (fun c hc => ?_) fun c c' hc => ofTree?_respells hs hc
  have hk : memberKinds.contains c.kind = false := by
    rw [hc]
    decide
  exact ⟨ofTree?_eq_none hk, ofTree?_eq_none hk⟩

end TypeMember

/-! ### Types -/

namespace Expansion

theorem argumentsOf_respells (h : t.Respells T t') (hm : ¬ t.IsMember) :
    List.Forall₂ (Tree.Respells T) (argumentsOf t) (argumentsOf t') ∧
      List.Forall₂ Tree.Same ((argumentsOf t).drop 1) ((argumentsOf t').drop 1) := by
  have harguments := h.part? hm (l := .typeArguments) (by decide)
  unfold argumentsOf
  generalize ha : t.part? .typeArguments = a at harguments
  generalize t'.part? .typeArguments = a' at harguments
  cases harguments with
  | none => exact ⟨.nil, .nil⟩
  | some h =>
      have hl := (Tree.mem_children_of_part? ha).2
      exact ⟨h.written_parts (Tree.not_isMember_of_label (by decide) hl), h.furtherArguments hl⟩

/-- Names with related arguments are made of what is related. -/
theorem formOfApplied_respells (h : t.Respells T t') (hm : ¬ t.IsMember) {n n' : Tree}
    (hn : n.Same n') :
    Form.Alike (PropMember.Like T) (Tree.Respells T) (formOfApplied t n) (formOfApplied t' n') := by
  obtain ⟨harguments, hfurther⟩ := argumentsOf_respells h hm
  have hfirst : Option.Rel (Tree.Respells T) (argumentsOf t).head? (argumentsOf t').head? := by
    generalize argumentsOf t = ts at harguments
    generalize argumentsOf t' = ts' at harguments
    cases harguments with
    | nil => exact .none
    | cons h _ => exact .some h
  have hnames : (argumentsOf t')[1]?.elim [] literalNames =
      (argumentsOf t)[1]?.elim [] literalNames := by
    have hsecond (ts : List Tree) : ts[1]? = (ts.drop 1).head? := by
      rw [List.head?_drop]
    rw [hsecond, hsecond]
    generalize (argumentsOf t).drop 1 = ts at hfurther
    generalize (argumentsOf t').drop 1 = ts' at hfurther
    cases hfurther with
    | nil => rfl
    | cons h _ =>
        rw [List.head?_cons, List.head?_cons, Option.elim_some, Option.elim_some, literalNames,
          h.text, literalNames]
  have hfilter (keep : Bool) (names : List String) (ms ms' : List PropMember)
      (hms : List.Forall₂ (PropMember.Like T) ms ms') :
      List.Forall₂ (PropMember.Like T) (ms.filter fun m => names.contains m.name = keep)
        (ms'.filter fun m => names.contains m.name = keep) := by
    refine List.rel_filter (fun m m' hmm => ?_) hms
    dsimp only
    rw [hmm.name]
  have hmap (b : Bool) (ms ms' : List PropMember) (hms : List.Forall₂ (PropMember.Like T) ms ms') :
      List.Forall₂ (PropMember.Like T) (ms.map fun m => { m with optional := b })
        (ms'.map fun m => { m with optional := b }) :=
    List.rel_map (fun m m' hmm => ⟨hmm.name, rfl, hmm.hasDefault, hmm.called, hmm.type⟩) hms
  unfold formOfApplied
  rw [hn.text, hn.kind, hnames]
  split
  · exact .wrapped (fun ms ms' hms => List.rel_append hms (.cons (.refl _) .nil)) hfirst
  · exact .wrapped (hmap true) hfirst
  · exact .wrapped (hmap false) hfirst
  · exact .wrapped (fun ms ms' hms => hms) hfirst
  · exact .wrapped (hfilter false _) hfirst
  · exact .wrapped (hfilter true _) hfirst
  · split
    · exact .name _
    · exact .own .nil

/-- Related types are made of what is related. -/
theorem formOf_respells (hs : s.Respells T s') (h : t.Respells T t') :
    Form.Alike (PropMember.Like T) (Tree.Respells T) (formOf s t) (formOf s' t') := by
  unfold formOf
  rw [h.kind]
  split
  · rename_i hk
    exact .own (ofBody_respells hs h (Tree.not_isMember_of_kind (by decide) hk))
  · rename_i hk
    exact .own (ofBody_respells hs h (Tree.not_isMember_of_kind (by decide) hk))
  · rename_i hk
    rw [(h.same_of_kind hk (by decide)).text]
    exact .name _
  · rename_i hk
    have hm : ¬ t.IsMember := Tree.not_isMember_of_kind (by decide) hk
    have hname := h.name hm
    generalize t.part? .name = n at hname
    generalize t'.part? .name = n' at hname
    cases hname with
    | none => exact .own .nil
    | some hn =>
        rw [Option.elim_some, Option.elim_some]
        exact formOfApplied_respells h hm hn
  · rename_i hk
    exact .parts (h.written_parts (Tree.not_isMember_of_kind (by decide) hk))
  · exact .own .nil

/-- The types of related declarations are related. -/
theorem typesOf_respells (h : t.RespellsType T t') :
    List.Forall₂ (Tree.Respells T) (Tree.written (typesOf t)) (Tree.written (typesOf t')) := by
  obtain ⟨h, hk⟩ := h
  unfold typesOf
  rw [h.kind]
  rcases hk with hk | hk
  · rw [hk]
    dsimp only [basesOf]
    unfold Tree.written
    rw [List.filter_flatMap, List.filter_flatMap]
    refine List.rel_flatMap (h.partsOf (Tree.not_isMember_of_kind (by decide) hk) (by decide))
      fun c c' hc => ?_
    exact hc.1.written_parts (Tree.not_isMember_of_kind (by decide) hc.2)
  · rw [hk]
    have hvalue := h.part? (Tree.not_isMember_of_kind (by decide) hk) (l := .value) (by decide)
    dsimp only
    generalize t.part? .value = v at hvalue
    generalize t'.part? .value = v' at hvalue
    refine List.rel_filter (fun c c' hc => ?_) ?_
    · dsimp only
      rw [Tree.Respells.kind hc]
    · cases hvalue with
      | none => exact .nil
      | some hv => exact .cons hv .nil

/-- The members in related declarations are alike. -/
theorem ownOf_respells (hs : s.Respells T s') (h : t.RespellsType T t') :
    List.Forall₂ (PropMember.Like T) (ownOf s t) (ownOf s' t') := by
  obtain ⟨h, hk⟩ := h
  unfold ownOf
  rw [h.kind]
  rcases hk with hk | hk
  · rw [hk]
    have hbody := h.part? (Tree.not_isMember_of_kind (by decide) hk) (l := .body) (by decide)
    dsimp only
    generalize hb : t.part? .body = b at hbody
    generalize t'.part? .body = b' at hbody
    cases hbody with
    | none => exact .nil
    | some h =>
        have hl := (Tree.mem_children_of_part? hb).2
        exact ofBody_respells hs h (Tree.not_isMember_of_label (by decide) hl)
  · rw [hk]
    exact .nil

/-- Related types, written out in related sources, have members that are alike. -/
theorem translates_respells :
    Translates (Source.Respells T) (Tree.RespellsType T) (Tree.Respells T) (PropMember.Like T) where
  declares h := h.declaresBy
  form := by
    intro m m' t t' hm ht
    have hpeel := peel_respells ht
    generalize peel t = u at hpeel
    generalize peel t' = u' at hpeel
    cases hpeel with
    | none => exact .none
    | some hu => exact .some (formOf_respells hm hu)
  types h := typesOf_respells h
  own hm h := ownOf_respells hm h

end Expansion

end Trellis
