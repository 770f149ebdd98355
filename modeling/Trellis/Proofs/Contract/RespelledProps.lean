import Trellis.Proofs.Contract.RespelledTypes

/-! # Props whose types are spelled in another way

The components of sources that are related.

* `Source.Respells.candidates`, `Source.Respells.exports_eq`: such sources have related candidates,
  and the same exports.
* `Candidate.Respells.props`: the props of related candidates are drawn from mentions that are
  alike, if related texts tell something both, or neither does (`KeepsVague`).
* `Analysis.components_respells`: the components are the same, but for their props and elements. -/

namespace Trellis

open Syntax TypeMember

variable {T : String → String → Prop} {s s' : Source} {t t' a a' : Tree}

/-! ### Candidates -/

namespace Candidate

variable {c c' : Candidate}

/-- Kinds of functions that may be components. -/
def functionKinds : List Kind := [.functionDeclaration, .arrowFunction, .functionExpression]

/-- Whether two candidates are the same, but for what may differ in related trees. -/
structure Respells (T : String → String → Prop) (c c' : Candidate) : Prop where
  /-- They have one name. -/
  name : c'.name = c.name
  /-- The functions are related. -/
  function : c.function.Respells T c'.function
  /-- They are functions. -/
  callable : functionKinds.contains c.function.kind = true
  /-- The ascriptions are related. -/
  ascription : Option.Rel (fun a a' => a.Respells T a' ∧ a.label = .type) c.ascription c'.ascription

theorem declaredName?_respells (h : t.Respells T t') : declaredName? t' = declaredName? t := by
  unfold declaredName?
  rw [h.kind]
  split
  · rename_i hk
    have hname := h.name (Tree.not_isMember_of_kind (by decide) hk)
    generalize t.part? .name = n at hname
    generalize t'.part? .name = n' at hname
    cases hname with
    | none => rfl
    | some hn => rw [Option.bind_eq_bind, Option.bind_some, Option.bind_some, hn.kind, hn.text]
  · rfl

theorem ofFunction?_respells (h : t.Respells T t') (hk : t.kind = .functionDeclaration) :
    Option.Rel (Respells T) (ofFunction? t) (ofFunction? t') := by
  have hname := h.name (Tree.not_isMember_of_kind (by decide) hk)
  unfold ofFunction?
  generalize t.part? .name = n at hname
  generalize t'.part? .name = n' at hname
  cases hname with
  | none => exact .none
  | some hn =>
      rw [Option.bind_eq_bind, Option.bind_some, Option.bind_some, hn.text]
      dsimp only
      split
      · exact .some ⟨rfl, h, by rw [hk]; decide, .none⟩
      · exact .none

theorem ofDeclarator?_eq_none (hk : t.kind ≠ .variableDeclarator) : ofDeclarator? t = none := by
  rw [ofDeclarator?, declaredName?, if_neg hk]
  rfl

theorem ofDeclarator?_respells (h : t.Respells T t') :
    Option.Rel (Respells T) (ofDeclarator? t) (ofDeclarator? t') := by
  by_cases hk : t.kind = .variableDeclarator
  · have hm : ¬ t.IsMember := Tree.not_isMember_of_kind (by decide) hk
    have hvalue := h.part? hm (l := .value) (by decide)
    have htype := h.part? hm (l := .type) (by decide)
    unfold ofDeclarator?
    rw [declaredName?_respells h]
    cases declaredName? t with
    | none => exact .none
    | some name =>
        generalize t.part? .value = v at hvalue
        generalize t'.part? .value = v' at hvalue
        cases hvalue with
        | none => exact .none
        | @some v v' hv =>
            have hfunction : isFunction v' = isFunction v := by
              rw [isFunction, hv.kind, isFunction]
            simp only [Option.bind_eq_bind, Option.bind_some]
            rw [hfunction]
            split
            · rename_i hyes
              rw [Bool.and_eq_true, isFunction, Bool.or_eq_true, decide_eq_true_eq,
                decide_eq_true_eq] at hyes
              refine .some ⟨rfl, hv, ?_, ?_⟩
              · rcases hyes.1 with hk | hk
                · rw [hk]
                  decide
                · rw [hk]
                  decide
              · generalize ha : t.part? .type = a at htype
                generalize t'.part? .type = a' at htype
                cases htype with
                | none => exact .none
                | some h => exact .some ⟨h, (Tree.mem_children_of_part? ha).2⟩
            · exact .none
  · rw [ofDeclarator?_eq_none hk, ofDeclarator?_eq_none (h.kind ▸ hk)]
    exact .none

theorem not_isMember_of_isVariables (h : isVariables t = true) : ¬ t.IsMember := by
  rw [isVariables, Bool.or_eq_true, decide_eq_true_eq, decide_eq_true_eq] at h
  rcases h with hk | hk
  · exact Tree.not_isMember_of_kind (by decide) hk
  · exact Tree.not_isMember_of_kind (by decide) hk

theorem isVariables_respells (h : t.Respells T t') : isVariables t' = isVariables t := by
  rw [isVariables, h.kind, isVariables]

theorem ofDeclaration_respells (h : t.Respells T t') :
    List.Forall₂ (Respells T) (ofDeclaration t) (ofDeclaration t') := by
  unfold ofDeclaration
  rw [h.kind, isVariables_respells h]
  split
  · rename_i hk
    have hrel := ofFunction?_respells h hk
    generalize ofFunction? t = c at hrel
    generalize ofFunction? t' = c' at hrel
    cases hrel with
    | none => exact .nil
    | some hc => exact .cons hc .nil
  · split
    · rename_i hv
      refine h.filterMap_parts (not_isMember_of_isVariables hv) (fun c hc => ?_) fun c c' hc =>
        ofDeclarator?_respells hc
      have hk : c.kind ≠ .variableDeclarator := by
        rw [hc]
        decide
      exact ⟨ofDeclarator?_eq_none hk, ofDeclarator?_eq_none hk⟩
    · exact .nil

/-- The declarations in related statements are related. -/
theorem declarationOf?_respells (h : t.Respells T t') :
    Option.Rel (Tree.Respells T) (declarationOf? t) (declarationOf? t') := by
  unfold declarationOf?
  rw [h.kind]
  split
  · rename_i hk
    have hm : ¬ t.IsMember := Tree.not_isMember_of_kind (by decide) hk
    have hsource := h.part? hm (l := .source) (by decide)
    generalize t.part? .source = x at hsource
    generalize t'.part? .source = x' at hsource
    cases hsource with
    | none => exact h.part? hm (by decide)
    | some _ => exact .none
  · exact .some h

end Candidate

/-- Related sources have related candidates. -/
theorem Source.Respells.candidates (h : s.Respells T s') :
    List.Forall₂ (Candidate.Respells T) (Candidate.ofSource s) (Candidate.ofSource s') := by
  refine h.flatMap_statements (fun c hc => ?_) fun c c' hc => ?_
  · have hnil : ((Candidate.declarationOf? c).map Candidate.ofDeclaration).getD [] = [] := by
      rw [Candidate.declarationOf?, hc, if_neg (by decide), Option.map_some, Option.getD_some,
        Candidate.ofDeclaration, hc, if_neg (by decide), Candidate.isVariables, hc]
      rfl
    exact ⟨hnil, hnil⟩
  · have hrel := Candidate.declarationOf?_respells hc
    generalize Candidate.declarationOf? c = d at hrel
    generalize Candidate.declarationOf? c' = d' at hrel
    cases hrel with
    | none => exact .nil
    | some hd => exact Candidate.ofDeclaration_respells hd

/-! ### Exports -/

namespace Export

theorem ofDeclaration_respells (h : t.Respells T t') (isDefault : Bool) :
    ofDeclaration isDefault t' = ofDeclaration isDefault t := by
  unfold ofDeclaration
  rw [h.kind, Candidate.isVariables_respells h]
  split
  · rename_i hk
    have hname := h.name (Tree.not_isMember_of_kind (by decide) hk)
    generalize t.part? .name = n at hname
    generalize t'.part? .name = n' at hname
    cases hname with
    | none => rfl
    | some hn => simp only [hn.text]
  · split
    · rename_i hv
      have hnone (c : Tree) (hc : c.kind = .comment) : Candidate.declaredName? c = none := by
        rw [Candidate.declaredName?, hc, if_neg (by decide)]
      have hnames := h.filterMap_parts (R := Eq) (Candidate.not_isMember_of_isVariables hv)
        (fun c hc => ⟨hnone c hc, hnone c hc⟩) fun c c' hc => by
          rw [Candidate.declaredName?_respells hc]
          cases Candidate.declaredName? c with
          | none => exact .none
          | some x => exact .some rfl
      rw [List.forall₂_eq_eq_eq] at hnames
      rw [hnames]
    · rfl

/-- Related statements have the same exports. -/
theorem ofStatement_respells (h : t.Respells T t') : ofStatement t' = ofStatement t := by
  by_cases hk : t.kind = .exportStatement
  · have hm : ¬ t.IsMember := Tree.not_isMember_of_kind (by decide) hk
    have hsource := h.part? hm (l := .source) (by decide)
    have hdeclaration := h.part? hm (l := .declaration) (by decide)
    have hvalue := h.part? hm (l := .value) (by decide)
    have hclauses : (partsOf .exportClause t').flatMap (fun c => c.parts.filterMap ofSpecifier?) =
        (partsOf .exportClause t).flatMap fun c => c.parts.filterMap ofSpecifier? := by
      have hsame := h.partsOf hm (k := .exportClause) (by decide)
      have hentries := map_forall₂ hsame
        (f := fun c => c.parts.filterMap ofSpecifier?)
        (g := fun c => c.parts.filterMap ofSpecifier?) fun c c' hc => by
          refine (hc.1.same_of_kind hc.2 (by decide)).eq_of_unlined
            (f := fun c => c.parts.filterMap ofSpecifier?) fun c => ?_
          rw [Tree.parts_unlined, List.filterMap_map]
          exact List.filterMap_congr fun x _ => ofSpecifier?_unlined x
      rw [List.flatMap_def, List.flatMap_def, hentries]
    unfold TypeMember.partsOf at hclauses
    unfold ofStatement
    rw [h.kind, hclauses, h.hasMark hm]
    generalize t.part? .source = x at hsource
    generalize t'.part? .source = x' at hsource
    generalize t.part? .declaration = d at hdeclaration
    generalize t'.part? .declaration = d' at hdeclaration
    generalize t.part? .value = v at hvalue
    generalize t'.part? .value = v' at hvalue
    have hsome : x'.isSome = x.isSome := by cases hsource <;> rfl
    rw [hsome]
    split
    · rfl
    · cases hdeclaration with
      | some hd => exact ofDeclaration_respells hd _
      | none =>
          cases hvalue with
          | none => rfl
          | @some v v' hv =>
              dsimp only
              by_cases hi : v.kind = .identifier
              · rw [hv.kind, (hv.same_of_kind hi (by decide)).text]
              · rw [hv.kind, decide_eq_false hi, Bool.and_false]
                rfl
  · have hno : t'.kind ≠ .exportStatement := h.kind ▸ hk
    rw [ofStatement, if_pos (by simp [hno]), ofStatement, if_pos (by simp [hk])]

end Export

namespace Source.Respells

/-- Related sources say the same in statements that declare nothing. -/
theorem flatMap_eq {α : Type} {f : Tree → List α} (h : s.Respells T s')
    (hf : ∀ c, c.kind = .comment → f c = []) (hR : ∀ c c', c.Respells T c' → f c' = f c) :
    s'.statements.flatMap f = s.statements.flatMap f := by
  have hrel := h.flatMap_statements (R := Eq) (fun c hc => ⟨hf c hc, hf c hc⟩) fun c c' hc => by
    rw [hR c c' hc, List.forall₂_eq_eq_eq]
  rw [List.forall₂_eq_eq_eq] at hrel
  exact hrel.symm

theorem exports_eq (h : s.Respells T s') : Export.ofSource s' = Export.ofSource s := by
  refine h.flatMap_eq (fun c hc => ?_) fun c c' hc => Export.ofStatement_respells hc
  rw [Export.ofStatement, if_pos (by simp [hc])]

/-- They say the same for checks at run time. -/
theorem checks_eq (h : s.Respells T s') (component : String) :
    s'.statements.flatMap (Mention.ofStatement component) =
      s.statements.flatMap (Mention.ofStatement component) := by
  refine h.flatMap_eq (fun c hc => Mention.ofStatement_eq_nil (by simp [hc])) fun c c' hc => ?_
  by_cases hk : c.kind = .expressionStatement
  · exact (hc.same_of_kind hk (by decide)).eq_of_unlined (Mention.ofStatement_unlined component)
  · rw [Mention.ofStatement_eq_nil hk, Mention.ofStatement_eq_nil (hc.kind ▸ hk)]

end Source.Respells

/-! ### Props -/

namespace Candidate

variable {c c' : Candidate} {M M' : Modules}

theorem Respells.not_isMember (h : c.Respells T c') : ¬ c.function.IsMember := by
  have hkinds : ∀ k ∈ functionKinds, memberKinds.contains k = false := by decide
  have hkind := hkinds _ (List.contains_iff_mem.mp h.callable)
  exact fun hm => Bool.false_ne_true (hkind.symm.trans hm.1)

theorem Respells.body (h : c.Respells T c') :
    Option.Rel Tree.Same (c.function.part? .body) (c'.function.part? .body) := by
  refine h.function.body h.not_isMember fun hk => ?_
  have hcallable := h.callable
  rw [hk] at hcallable
  cases hcallable

theorem Respells.firstParameter? (h : c.Respells T c') :
    Option.Rel (Tree.Respells T) c.firstParameter? c'.firstParameter? := by
  have hone := h.function.part? h.not_isMember (l := .parameter) (by decide)
  have hmany := h.function.part? h.not_isMember (l := .parameters) (by decide)
  unfold Candidate.firstParameter?
  generalize c.function.part? .parameter = p at hone
  generalize c'.function.part? .parameter = p' at hone
  generalize hps : c.function.part? .parameters = ps at hmany
  generalize c'.function.part? .parameters = ps' at hmany
  cases hone with
  | some h => exact .some h
  | none =>
      cases hmany with
      | none => exact .none
      | some h =>
          have hl := (Tree.mem_children_of_part? hps).2
          exact h.content? (Tree.not_isMember_of_label (by decide) hl)

theorem patternOf?_respells (h : t.Respells T t') :
    Option.Rel (Tree.Respells T) (patternOf? t) (patternOf? t') := by
  unfold patternOf?
  rw [h.kind]
  split
  · rename_i hk
    exact h.part? (Tree.not_isMember_of_kind (by decide) hk) (by decide)
  · rename_i hk
    exact h.part? (Tree.not_isMember_of_kind (by decide) hk) (by decide)
  · rename_i hk
    exact h.part? (Tree.not_isMember_of_kind (by decide) hk) (by decide)
  · exact .some h

theorem ascriptionOf?_respells (h : t.Respells T t') :
    Option.Rel (Tree.Respells T) (ascriptionOf? t) (ascriptionOf? t') := by
  unfold ascriptionOf?
  rw [h.kind]
  split
  · rename_i hk
    exact h.part? (Tree.not_isMember_of_kind (by decide) hk) (by decide)
  · rename_i hk
    exact h.part? (Tree.not_isMember_of_kind (by decide) hk) (by decide)
  · exact .none

theorem componentArgument?_eq (a : Tree) : componentArgument? a = a.content?.bind fun t =>
    if t.kind = .genericType then
      (t.part? .name).bind fun name =>
        if componentTypes.contains (Expansion.lastName name.text) then
          (t.part? .typeArguments).bind Tree.content?
        else none
    else none := by
  unfold componentArgument?
  cases a.content? with
  | none => rfl
  | some t =>
      simp only [Option.bind_eq_bind, Option.bind_some]
      by_cases hk : t.kind = .genericType
      · simp [hk]
      · cases t.part? .name <;> simp [hk]

theorem componentArgument?_respells (h : a.Respells T a') (hl : a.label = .type) :
    Option.Rel (Tree.Respells T) (componentArgument? a) (componentArgument? a') := by
  have hcontent := h.content? (Tree.not_isMember_of_label (by decide) hl)
  rw [componentArgument?_eq, componentArgument?_eq]
  generalize a.content? = t at hcontent
  generalize a'.content? = t' at hcontent
  cases hcontent with
  | none => exact .none
  | @some t t' h =>
      rw [Option.bind_some, Option.bind_some, h.kind]
      split
      · rename_i hk
        have hm : ¬ t.IsMember := Tree.not_isMember_of_kind (by decide) hk
        have hname := h.name hm
        have harguments := h.part? hm (l := .typeArguments) (by decide)
        generalize t.part? .name = n at hname
        generalize t'.part? .name = n' at hname
        generalize hx : t.part? .typeArguments = x at harguments
        generalize t'.part? .typeArguments = x' at harguments
        cases hname with
        | none => exact .none
        | some hn =>
            rw [Option.bind_some, Option.bind_some, hn.text]
            split
            · cases harguments with
              | none => exact .none
              | some h =>
                  exact h.content? (Tree.not_isMember_of_label (by decide)
                    (Tree.mem_children_of_part? hx).2)
            · exact .none
      · exact .none

/-- The declared types of the props of related candidates are related. -/
theorem Respells.propsType? (h : c.Respells T c') :
    Option.Rel (Tree.Respells T) c.propsType? c'.propsType? := by
  have hparameter := h.firstParameter?
  have hascription := h.ascription
  have hleft : Option.Rel (Tree.Respells T) (c.firstParameter?.bind ascriptionOf?)
      (c'.firstParameter?.bind ascriptionOf?) := by
    generalize c.firstParameter? = p at hparameter
    generalize c'.firstParameter? = p' at hparameter
    cases hparameter with
    | none => exact .none
    | some h => exact ascriptionOf?_respells h
  have hright : Option.Rel (Tree.Respells T) (c.ascription.bind componentArgument?)
      (c'.ascription.bind componentArgument?) := by
    generalize c.ascription = a at hascription
    generalize c'.ascription = a' at hascription
    cases hascription with
    | none => exact .none
    | some h => exact componentArgument?_respells h.1 h.2
  unfold Candidate.propsType?
  generalize c.firstParameter?.bind ascriptionOf? = x at hleft
  generalize c'.firstParameter?.bind ascriptionOf? = x' at hleft
  cases hleft with
  | none => exact hright
  | some h => exact .some h

/-- What the parameter and the body say about the props is the same. -/
theorem Respells.uses_eq (h : c.Respells T c') : c'.uses = c.uses := by
  have hparameter := h.firstParameter?
  have hbody := h.body
  have hpattern : Option.Rel (Tree.Respells T) (c.firstParameter?.bind patternOf?)
      (c'.firstParameter?.bind patternOf?) := by
    generalize c.firstParameter? = p at hparameter
    generalize c'.firstParameter? = p' at hparameter
    cases hparameter with
    | none => exact .none
    | some h => exact patternOf?_respells h
  unfold uses
  generalize c.firstParameter?.bind patternOf? = p at hpattern
  generalize c'.firstParameter?.bind patternOf? = p' at hpattern
  cases hpattern with
  | none => rfl
  | @some p p' hp =>
      dsimp only
      rw [hp.kind]
      split
      · rename_i hk
        exact (hp.same_of_kind hk (by decide)).eq_of_unlined Mention.ofPattern_unlined
      · rename_i hk
        rw [(hp.same_of_kind hk (by decide)).text]
        generalize c.function.part? .body = b at hbody
        generalize c'.function.part? .body = b' at hbody
        cases hbody with
        | none => rfl
        | some hb => exact hb.eq_of_unlined (Mention.ofBody_unlined p.text)
      · rfl

/-- The declared members of the props are alike. -/
theorem Respells.members_expansion (h : c.Respells T c') (hs : s.Respells T s')
    (hm : Modules.Agree (Source.Respells T) s s' M M') :
    List.Forall₂ (PropMember.Like T) (c.expansion M s).members (c'.expansion M' s').members := by
  have htype := h.propsType?
  rw [Candidate.members_expansion, Candidate.members_expansion]
  generalize c.propsType? = x at htype
  generalize c'.propsType? = x' at htype
  cases htype with
  | none => exact .nil
  | some ht => exact hm.forall₂_members Expansion.translates_respells hs _ _ ht

end Candidate

namespace Mention

/-- Whether what is said is the same, but for types that are alike. -/
inductive Like (T : String → String → Prop) : Mention → Mention → Prop
  /-- The types are alike. -/
  | typed {p p' : PropMember} : p.Like T p' → Like T (.typed p) (.typed p')
  /-- The same use is seen. -/
  | seen (name : String) (hasDefault : Bool) :
      Like T (.seen name hasDefault) (.seen name hasDefault)

theorem Like.refl (m : Mention) : m.Like T m := by
  cases m with
  | typed p => exact .typed (.refl p)
  | seen name hasDefault => exact .seen name hasDefault

end Mention

/-- Whether related texts of types tell something both, or neither does. -/
def KeepsVague (T : String → String → Prop) : Prop :=
  ∀ x x', T x x' →
    PropMember.isVague (TypeText.normalize x') = PropMember.isVague (TypeText.normalize x)

theorem PropMember.Like.isVague {p p' : PropMember} (h : p.Like T p') (hT : KeepsVague T) :
    isVague p'.type = isVague p.type := by
  rcases h.type with h | ⟨x, x', hx, hp, hp'⟩
  · rw [h]
  · rw [hp, hp', hT x x' hx]

theorem PropMember.Like.combine {p p' q q' : PropMember} (hp : p.Like T p') (hq : q.Like T q')
    (hT : KeepsVague T) : (p.combine q).Like T (p'.combine q') := by
  unfold PropMember.combine
  rw [hp.isVague hT, hq.isVague hT, hp.hasDefault, hq.hasDefault]
  split
  · exact ⟨hp.name, hp.optional, rfl, hp.called, hp.type⟩
  · exact ⟨hp.name, hq.optional, rfl, hq.called, hq.type⟩

namespace PropMembers

variable {ms ms' : List PropMember}

theorem update_like (h : List.Forall₂ (PropMember.Like T) ms ms') {name : String}
    {change change' : PropMember → PropMember} {added added' : PropMember}
    (hchange : ∀ p p', p.Like T p' → (change p).Like T (change' p'))
    (hadded : added.Like T added') :
    List.Forall₂ (PropMember.Like T) (update name change added ms)
      (update name change' added' ms') := by
  induction h with
  | nil => exact .cons hadded .nil
  | @cons p p' ms ms' hp hms ih =>
      rw [update, update, hp.name]
      split
      · exact .cons (hchange p p' hp) hms
      · exact .cons hp ih

/-- What is said alike leaves props that are alike. -/
theorem apply_like (hT : KeepsVague T) (h : List.Forall₂ (PropMember.Like T) ms ms')
    {m m' : Mention}
    (hm : m.Like T m') : List.Forall₂ (PropMember.Like T) (m.apply ms) (m'.apply ms') := by
  cases hm with
  | @typed p p' hp =>
      rw [Mention.apply, Mention.apply, merge, merge, hp.name]
      exact update_like h (fun _ _ hq => hq.combine hp hT) hp
  | seen name hasDefault =>
      refine update_like h (fun q q' hq => ⟨hq.name, hq.optional, ?_, hq.called, hq.type⟩) (.refl _)
      dsimp only
      rw [hq.hasDefault]

theorem run_like (hT : KeepsVague T) {said said' : List Mention}
    (h : List.Forall₂ (Mention.Like T) said said') (hms : List.Forall₂ (PropMember.Like T) ms ms') :
    List.Forall₂ (PropMember.Like T) (said.foldl Mention.apply ms)
      (said'.foldl Mention.apply ms') := by
  induction h generalizing ms ms' with
  | nil => exact hms
  | cons hm _ ih => exact ih (apply_like hT hms hm)

end PropMembers

/-- Whether two props are drawn from what is known of them alike. -/
def ComponentProp.Like (T : String → String → Prop) (p p' : ComponentProp) : Prop :=
  ∃ m m' : PropMember, m.Like T m' ∧ p = m.finish ∧ p' = m'.finish

/-- Related candidates have props that are alike. -/
theorem Candidate.Respells.props {c c' : Candidate} {M M' : Modules} (hT : KeepsVague T)
    (h : c.Respells T c') (hs : s.Respells T s')
    (hm : Modules.Agree (Source.Respells T) s s' M M') :
    List.Forall₂ (ComponentProp.Like T) (c.props M s) (c'.props M' s') := by
  have hrefl (ms : List Mention) : List.Forall₂ (Mention.Like T) ms ms :=
    List.forall₂_same.mpr fun m _ => .refl m
  have hsaid : List.Forall₂ (Mention.Like T) (c.mentions M s) (c'.mentions M' s') := by
    rw [mentions, mentions, h.uses_eq, h.name, hs.checks_eq]
    refine List.rel_append (List.rel_append ?_ (hrefl _)) (hrefl _)
    exact List.rel_map (fun _ _ hp => .typed hp) (h.members_expansion hs hm)
  exact List.rel_map (fun m m' hmm => ⟨m, m', hmm, rfl, rfl⟩)
    (PropMembers.run_like hT hsaid .nil)

/-! ### Components -/

/-- Whether two components are the same, but for props that are related and for their elements. -/
structure Component.Like (R : ComponentProp → ComponentProp → Prop) (k k' : Component) : Prop where
  /-- They have one name. -/
  name : k'.name = k.name
  /-- They leave their modules in the same way. -/
  exportKind : k'.exportKind = k.exportKind
  /-- They are exported under one name. -/
  exportedAs : k'.exportedAs = k.exportedAs
  /-- They have as many elements. -/
  markupCount : k'.markupCount = k.markupCount
  /-- Their props are related, one by one. -/
  props : List.Forall₂ R k.props k'.props

namespace Analysis

/-- Related sources have the same components, but for props that are drawn from what is alike. -/
theorem components_respells {M M' : Modules} (hT : KeepsVague T) (hs : s.Respells T s')
    (hm : Modules.Agree (Source.Respells T) s s' M M') :
    List.Forall₂ (Component.Like (ComponentProp.Like T)) (components M s) (components M' s') := by
  have hexported : List.Forall₂ (fun e e' => e.1.Respells T e'.1 ∧ e'.2 = e.2) (exported s)
      (exported s') := by
    refine List.rel_filterMap (fun c c' hc => ?_) hs.candidates
    rw [hs.exports_eq, hc.name]
    cases Export.lookup (Export.ofSource s) c.name with
    | none => exact .none
    | some e => exact .some ⟨hc, rfl⟩
  refine List.rel_filterMap (fun e e' he => ?_) hexported
  obtain ⟨c, kind, name⟩ := e
  obtain ⟨c', kind', name'⟩ := e'
  obtain ⟨hc, heq⟩ := he
  cases heq
  have hvisits : c'.visits.length = c.visits.length := by
    have hbody := hc.body
    unfold Candidate.visits
    generalize c.function.part? .body = b at hbody
    generalize c'.function.part? .body = b' at hbody
    cases hbody with
    | none => rfl
    | some hb =>
        exact hb.eq_of_unlined (f := fun t => (Markup.visits [] t).length) fun t =>
          Markup.length_visits_unlined t [] []
  have hempty : c'.visits.isEmpty = c.visits.isEmpty := by
    rw [Bool.eq_iff_iff, List.isEmpty_iff_length_eq_zero, List.isEmpty_iff_length_eq_zero, hvisits]
  dsimp only
  unfold Candidate.component?
  rw [hempty]
  split
  · exact .none
  · exact .some ⟨hc.name, rfl, rfl, hvisits, hc.props hT hs hm⟩

end Analysis

end Trellis
