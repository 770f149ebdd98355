import Trellis.Contract.Analysis

/-! # Gating suffices

The props recorded for a gated element settle every condition around it.

* `Formula` is a condition built from props with negation, conjunction and disjunction, and
  `Condition.formula?` reads a tree as one. A tree that holds anything else is no formula.
* `Formula.eval_of_literals`: when every literal has the truth value asked of it, so has the formula.
* `Condition.all_eq_literals`: the mentions in a tree are the literals of its formula.
* `Gate.Names` and `Gate.Backed` say that a gate names a prop, and that it names nothing that is not
  asked for; `Gate.collect_names` and `Gate.collect_backed` carry both outwards through what stands
  around an element.
* `Candidate.gating_sufficient` joins them. -/

namespace Trellis

open Syntax

/-! ### Formulas over props -/

/-- A condition on the truth values of props. -/
inductive Formula where
  /-- A prop holds. -/
  | prop (name : String)
  /-- A formula does not hold. -/
  | not (φ : Formula)
  /-- Both formulas hold. -/
  | and (φ ψ : Formula)
  /-- One of the formulas holds. -/
  | or (φ ψ : Formula)
  deriving DecidableEq, Repr

namespace Formula

/-- The truth value of a formula when the props have theirs. -/
def eval (ρ : String → Bool) : Formula → Bool
  | prop n => ρ n
  | not φ => !φ.eval ρ
  | and φ ψ => φ.eval ρ && ψ.eval ρ
  | or φ ψ => φ.eval ρ || ψ.eval ρ

/-- The props of a formula, each with whether it stands under an odd number of negations. -/
def literals (negated : Bool) : Formula → List (String × Bool)
  | prop n => [(n, negated)]
  | not φ => φ.literals (!negated)
  | and φ ψ => φ.literals negated ++ ψ.literals negated
  | or φ ψ => φ.literals negated ++ ψ.literals negated

/-- A formula has the truth value that all of its literals are given. -/
theorem eval_of_literals {ρ : String → Bool} {truthy : Bool} (φ : Formula) (negated : Bool)
    (h : ∀ l ∈ φ.literals negated, ρ l.1 = (truthy != l.2)) : φ.eval ρ = (truthy != negated) := by
  induction φ generalizing negated with
  | prop n => exact h (n, negated) List.mem_cons_self
  | not φ ih =>
      have hφ := ih (!negated) h
      rw [eval, hφ]
      cases truthy <;> cases negated <;> rfl
  | and φ ψ ihφ ihψ =>
      have hφ := ihφ negated fun l hl => h l (List.mem_append_left _ hl)
      have hψ := ihψ negated fun l hl => h l (List.mem_append_right _ hl)
      rw [eval, hφ, hψ, Bool.and_self]
  | or φ ψ ihφ ihψ =>
      have hφ := ihφ negated fun l hl => h l (List.mem_append_left _ hl)
      have hψ := ihψ negated fun l hl => h l (List.mem_append_right _ hl)
      rw [eval, hφ, hψ, Bool.or_self]

end Formula

/-! ### Conditions as formulas -/

namespace Condition

/-- Whether a child says nothing about the condition: a mark or a comment. -/
def isSilent (t : Tree) : Bool := t.kind = .mark || (t.kind = .comment && t.children.isEmpty)

/-- The formula of a tree that is no prop, from the formulas of its parts. -/
def combine? (t : Tree) (φs : List Formula) : Option Formula :=
  match t.kind, φs with
  | .parenthesizedExpression, [φ] => some φ
  | .unaryExpression, [φ] => if Mentions.flips t then some (.not φ) else none
  | .binaryExpression, [φ, ψ] =>
    if (t.part? .operator).any (·.text = "&&") then some (.and φ ψ)
    else if (t.part? .operator).any (·.text = "||") then some (.or φ ψ)
    else none
  | _, _ => none

mutual

/-- The formula that a condition is, if it is built from parentheses, `!`, `&&`, `||` and props. -/
def formula? (props : List String) : Tree → Option Formula
  | .node k l text line ts =>
    match Mentions.nameOf? (.node k l text line ts) with
    | some name => if props.contains name then some (.prop name) else none
    | none => (formulas? props ts).bind (combine? (.node k l text line ts))

/-- The formulas of the parts of a condition. -/
def formulas? (props : List String) : List Tree → Option (List Formula)
  | [] => some []
  | t :: ts =>
    if isSilent t then formulas? props ts
    else (formula? props t).bind fun φ => (formulas? props ts).map (φ :: ·)

end

/-- The truth value of a condition, if it is a formula. -/
def value? (props : List String) (ρ : String → Bool) (t : Tree) : Option Bool :=
  (formula? props t).map (·.eval ρ)

theorem literals_combine? {t : Tree} {φs : List Formula} {φ : Formula} (negated : Bool)
    (h : combine? t φs = some φ) :
    φs.flatMap (·.literals (negated != Mentions.flips t)) = φ.literals negated := by
  unfold combine? at h
  split at h
  case h_1 χ hk =>
    cases h
    have hf : Mentions.flips t = false := by simp [Mentions.flips, hk]
    simp [hf]
  case h_2 χ hk =>
    split at h
    · cases h
      rename_i hf
      simp [hf, Formula.literals]
    · cases h
  case h_3 χ ψ hk =>
    have hf : Mentions.flips t = false := by simp [Mentions.flips, hk]
    split at h
    · cases h
      simp [hf, Formula.literals]
    · split at h
      · cases h
        simp [hf, Formula.literals]
      · cases h
  case h_4 => cases h

/-- A comment mentions nothing. -/
theorem all_of_isSilent {t : Tree} (negated : Bool) (h : isSilent t = true) (hm : t.kind ≠ .mark) :
    Mentions.all negated t = [] := by
  obtain ⟨k, l, text, line, ts⟩ := t
  have hk : k ≠ .mark := hm
  simp only [isSilent, Tree.kind, Tree.children, Bool.or_eq_true, decide_eq_true_eq, hk, false_or,
    Bool.and_eq_true, List.isEmpty_iff] at h
  obtain ⟨hc, rfl⟩ := h
  rw [of_decide_eq_true hc]
  rfl

mutual

/-- The declared mentions in a condition are the literals of its formula. -/
theorem all_eq_literals {props : List String} (negated : Bool) :
    ∀ {t : Tree} {φ : Formula}, formula? props t = some φ →
      (Mentions.all negated t).filter (fun e => props.contains e.1) = φ.literals negated
  | .node k l text line ts, φ, h => by
    unfold formula? at h
    unfold Mentions.all
    cases hn : Mentions.nameOf? (.node k l text line ts) with
    | some name =>
        rw [hn] at h
        dsimp only at h
        split at h
        · rename_i hd
          cases h
          dsimp only
          exact List.filter_cons_of_pos hd
        · cases h
    | none =>
        rw [hn] at h
        obtain ⟨φs, hφs, hφ⟩ := Option.bind_eq_some_iff.mp h
        dsimp only
        rw [ofEach_eq_literals _ hφs]
        exact literals_combine? negated hφ

/-- The declared mentions in the parts of a condition are the literals of their formulas. -/
theorem ofEach_eq_literals {props : List String} (negated : Bool) :
    ∀ {ts : List Tree} {φs : List Formula}, formulas? props ts = some φs →
      (Mentions.ofEach negated ts).filter (fun e => props.contains e.1) =
        φs.flatMap (·.literals negated)
  | [], φs, h => by
    cases h
    rfl
  | t :: ts, φs, h => by
    unfold formulas? at h
    unfold Mentions.ofEach
    rw [List.filter_append]
    split at h
    · rename_i hs
      rw [ofEach_eq_literals negated h]
      split
      · rfl
      · rename_i hm
        rw [all_of_isSilent negated hs hm, List.filter_nil, List.nil_append]
    · rename_i hs
      obtain ⟨φ, hφ, h⟩ := Option.bind_eq_some_iff.mp h
      obtain ⟨ψs, hψs, rfl⟩ := Option.map_eq_some_iff.mp h
      have hm : t.kind ≠ .mark := fun hm => hs (by simp [isSilent, hm])
      rw [if_neg hm, all_eq_literals negated hφ, ofEach_eq_literals negated hψs,
        List.flatMap_cons]

end

/-- The conditions around an element that mention a declared prop, each with the truth value under
which the side of the element is rendered. -/
def guards (props : List String) : List Enclosure → List (Tree × Bool)
  | [] => []
  | .markup :: rest => guards props rest
  | .guard condition truthy :: rest =>
    if (Mentions.ofCondition props condition).isEmpty then guards props rest
    else (condition, truthy) :: guards props rest

/-- The props in these conditions, each with the truth value that its place asks of it. -/
def demands (props : List String) (around : List Enclosure) : List (String × Bool) :=
  (guards props around).flatMap fun g =>
    ((formula? props g.1).elim [] (·.literals false)).map fun l => (l.1, g.2 != l.2)

/-- No prop is asked to be both truthy and falsy. -/
def Consistent (props : List String) (around : List Enclosure) : Prop :=
  ∀ d ∈ demands props around, ∀ d' ∈ demands props around, d.1 = d'.1 → d.2 = d'.2

theorem mem_firsts {es : List (String × Bool)} {e : String × Bool} (h : e ∈ Mentions.firsts es) :
    e ∈ es := by
  induction es with
  | nil => exact h
  | cons e' es ih =>
      rcases List.mem_cons.mp h with rfl | h
      · exact List.mem_cons_self
      · exact List.mem_cons_of_mem _ (ih (List.mem_filter.mp h).1)

theorem exists_mem_firsts {es : List (String × Bool)} {e : String × Bool} (h : e ∈ es) :
    ∃ e' ∈ Mentions.firsts es, e'.1 = e.1 := by
  induction es with
  | nil => cases h
  | cons e' es ih =>
      by_cases hn : e'.1 = e.1
      · exact ⟨e', List.mem_cons_self, hn⟩
      · rcases List.mem_cons.mp h with rfl | h
        · exact absurd rfl hn
        · obtain ⟨f, hf, hfn⟩ := ih h
          have hne : f.1 ≠ e'.1 := fun he => hn (by rw [← he, hfn])
          exact ⟨f, List.mem_cons_of_mem _ (List.mem_filter.mpr ⟨hf, by simpa using hne⟩), hfn⟩

theorem ofCondition_eq {props : List String} {condition : Tree} {φ : Formula}
    (h : formula? props condition = some φ) :
    Mentions.ofCondition props condition = Mentions.firsts (φ.literals false) := by
  rw [Mentions.ofCondition, all_eq_literals false h]

end Condition

/-! ### Gates -/

namespace Gate

open Condition (guards demands formula?)

/-- Whether a gate names a prop. -/
def Names (g : Gate) (n : String) : Prop := n ∈ g.required ∨ n ∈ g.falsy

/-- Whether everything that a gate asks for is among some demands. -/
def Backed (ds : List (String × Bool)) (g : Gate) : Prop :=
  (∀ n ∈ g.required, (n, true) ∈ ds) ∧ ∀ n ∈ g.falsy, (n, false) ∈ ds

theorem add_names_self (g : Gate) (n : String) (truthy : Bool) : (g.add n truthy).Names n := by
  unfold add
  split
  · rename_i h
    simpa [Names] using h
  · split
    · exact .inl (List.mem_append_right _ List.mem_cons_self)
    · exact .inr (List.mem_append_right _ List.mem_cons_self)

theorem add_names {g : Gate} {m : String} (h : g.Names m) (n : String) (truthy : Bool) :
    (g.add n truthy).Names m := by
  unfold add
  split
  · exact h
  · split
    · exact h.imp_left (List.mem_append_left _)
    · exact h.imp_right (List.mem_append_left _)

theorem empty_backed (ds : List (String × Bool)) (isRoot : Bool) : Backed ds ⟨[], [], isRoot⟩ :=
  ⟨fun _ h => absurd h List.not_mem_nil, fun _ h => absurd h List.not_mem_nil⟩

theorem add_backed {ds : List (String × Bool)} {g : Gate} (h : g.Backed ds) {n : String}
    {truthy : Bool} (hn : (n, truthy) ∈ ds) : (g.add n truthy).Backed ds := by
  unfold add
  split
  · exact h
  · split
    · rename_i ht
      refine ⟨fun m hm => ?_, h.2⟩
      rcases List.mem_append.mp hm with hm | hm
      · exact h.1 m hm
      · rw [List.mem_singleton.mp hm, ← ht]
        exact hn
    · rename_i ht
      refine ⟨h.1, fun m hm => ?_⟩
      rcases List.mem_append.mp hm with hm | hm
      · exact h.2 m hm
      · rw [List.mem_singleton.mp hm]
        rw [Bool.not_eq_true] at ht
        exact ht ▸ hn

theorem addAll_names {g : Gate} {m : String} (truthy : Bool) (es : List (String × Bool))
    (h : g.Names m ∨ ∃ e ∈ es, e.1 = m) : (g.addAll truthy es).Names m := by
  induction es generalizing g with
  | nil =>
      rcases h with h | ⟨e, he, _⟩
      · exact h
      · cases he
  | cons e es ih =>
      apply ih
      rcases h with h | ⟨f, hf, hm⟩
      · exact .inl (add_names h _ _)
      · rcases List.mem_cons.mp hf with rfl | hf
        · exact .inl (hm ▸ add_names_self _ _ _)
        · exact .inr ⟨f, hf, hm⟩

theorem addAll_backed {ds : List (String × Bool)} {g : Gate} (h : g.Backed ds) {truthy : Bool}
    {es : List (String × Bool)} (he : ∀ e ∈ es, (e.1, truthy != e.2) ∈ ds) :
    (g.addAll truthy es).Backed ds := by
  induction es generalizing g with
  | nil => exact h
  | cons e es ih =>
      exact ih (add_backed h (he e List.mem_cons_self)) fun e' he' =>
        he e' (List.mem_cons_of_mem _ he')

/-- A guard that mentions no prop is passed over; of any other the props are added. -/
theorem collect_guard (props : List String) (inMarkup : Bool) (g? : Option Gate) (condition : Tree)
    (truthy : Bool) (around : List Enclosure) :
    (guards props (.guard condition truthy :: around) = guards props around ∧
      collect props inMarkup g? (.guard condition truthy :: around) =
        collect props inMarkup g? around) ∨
    (guards props (.guard condition truthy :: around) =
        (condition, truthy) :: guards props around ∧
      collect props inMarkup g? (.guard condition truthy :: around) =
        collect props inMarkup (some ((g?.getD ⟨[], [], !inMarkup⟩).addAll truthy
          (Mentions.ofCondition props condition))) around) := by
  by_cases he : (Mentions.ofCondition props condition).isEmpty
  · left
    rw [guards, if_pos he, collect, if_pos he]
    exact ⟨rfl, rfl⟩
  · right
    rw [guards, if_neg he, collect, if_neg he]
    exact ⟨rfl, rfl⟩

/-- Whether a guard around an element mentions a prop. -/
def Mentioned (props : List String) (around : List Enclosure) (n : String) : Prop :=
  ∃ g ∈ guards props around, ∃ e ∈ Mentions.ofCondition props g.1, e.1 = n

/-- The gate in the end names all that was named before or is mentioned around the element. -/
theorem collect_names {props : List String} {around : List Enclosure} {inMarkup : Bool}
    {g? : Option Gate} {g : Gate} (h : collect props inMarkup g? around = some g) {n : String}
    (hn : (∃ g₀ ∈ g?, g₀.Names n) ∨ Mentioned props around n) : g.Names n := by
  -- Outwards from the element, with any gate that was collected so far.
  induction around generalizing inMarkup g? with
  | nil =>
      rcases hn with ⟨g₀, hg₀, hn⟩ | ⟨_, hg, _⟩
      · rw [Option.mem_def, show g? = some g from h] at hg₀
        cases hg₀
        exact hn
      · cases hg
  | cons x around ih =>
      cases x with
      | markup => exact ih h hn
      | guard condition truthy =>
          rcases collect_guard props inMarkup g? condition truthy around with ⟨hg, hc⟩ | ⟨hg, hc⟩
          · rw [hc] at h
            rw [Mentioned, hg] at hn
            exact ih h hn
          · rw [hc] at h
            refine ih h ?_
            rcases hn with ⟨g₀, hg₀, hn⟩ | ⟨c, hmem, e, hm, hn⟩
            · rw [Option.mem_def.mp hg₀]
              exact .inl ⟨_, rfl, addAll_names truthy _ (.inl hn)⟩
            · rw [hg] at hmem
              rcases List.mem_cons.mp hmem with rfl | hmem
              · exact .inl ⟨_, rfl, addAll_names truthy _ (.inr ⟨e, hm, hn⟩)⟩
              · exact .inr ⟨c, hmem, e, hm, hn⟩

/-- The gate in the end asks for nothing but demands if all that is added to it is a demand. -/
theorem collect_backed {props : List String} {around : List Enclosure} {inMarkup : Bool}
    {g? : Option Gate} {g : Gate} (h : collect props inMarkup g? around = some g)
    {ds : List (String × Bool)} (hg : ∀ g₀ ∈ g?, g₀.Backed ds)
    (hd : ∀ c ∈ guards props around, ∀ e ∈ Mentions.ofCondition props c.1,
      (e.1, c.2 != e.2) ∈ ds) : g.Backed ds := by
  induction around generalizing inMarkup g? with
  | nil => exact hg g h
  | cons x around ih =>
      cases x with
      | markup => exact ih h hg hd
      | guard condition truthy =>
          rcases collect_guard props inMarkup g? condition truthy around with ⟨he, hc⟩ | ⟨he, hc⟩
          · rw [hc] at h
            rw [he] at hd
            exact ih h hg hd
          · rw [hc] at h
            rw [he] at hd
            refine ih h ?_ fun c hc => hd c (List.mem_cons_of_mem _ hc)
            intro g₁ hg₁
            cases hg₁
            refine addAll_backed ?_ (hd _ List.mem_cons_self)
            cases g? with
            | none => exact empty_backed ds _
            | some g₀ => exact hg g₀ rfl

theorem collect_ne_none {props : List String} (around : List Enclosure) (inMarkup : Bool)
    (g : Gate) : collect props inMarkup (some g) around ≠ none := by
  induction around generalizing inMarkup g with
  | nil => exact Option.some_ne_none g
  | cons x around ih =>
      cases x with
      | markup => exact ih true g
      | guard condition truthy =>
          rcases collect_guard props inMarkup (some g) condition truthy around with
            ⟨_, hc⟩ | ⟨_, hc⟩
          · rw [hc]
            exact ih inMarkup g
          · rw [hc]
            exact ih inMarkup _

/-- Without a gate, no condition around the element mentions a prop. -/
theorem guards_of_collect_none {props : List String} {around : List Enclosure} {inMarkup : Bool}
    (h : collect props inMarkup none around = none) : guards props around = [] := by
  induction around generalizing inMarkup with
  | nil => rfl
  | cons x around ih =>
      cases x with
      | markup => exact ih h
      | guard condition truthy =>
          rcases collect_guard props inMarkup none condition truthy around with
            ⟨hg, hc⟩ | ⟨_, hc⟩
          · rw [hc] at h
            rw [hg]
            exact ih h
          · rw [hc] at h
            exact absurd h (collect_ne_none around inMarkup _)

end Gate

/-! ### Elements under a gate -/

section elements

open Condition

variable {props : List String} {around : List Enclosure}

theorem mem_demands {c : Tree × Bool} (hc : c ∈ guards props around) {φ : Formula}
    (hφ : formula? props c.1 = some φ) {l : String × Bool} (hl : l ∈ φ.literals false) :
    (l.1, c.2 != l.2) ∈ demands props around := by
  refine List.mem_flatMap.mpr ⟨c, hc, List.mem_map.mpr ⟨l, ?_, rfl⟩⟩
  rw [hφ]
  exact hl

/-- When a gate's props have their truth values, every condition around its element has the one
under which the element's side is rendered. -/
theorem Gate.value_of_ofEnclosures {g : Gate} (h : Gate.ofEnclosures props around = some g)
    (plain : ∀ c ∈ guards props around, (formula? props c.1).isSome)
    (consistent : Consistent props around) {ρ : String → Bool}
    (required : ∀ n ∈ g.required, ρ n = true) (falsy : ∀ n ∈ g.falsy, ρ n = false) :
    ∀ c ∈ guards props around, value? props ρ c.1 = some c.2 := by
  -- The gate asks for nothing but demands, and demands agree: so each literal has its value.
  have backed : g.Backed (demands props around) := by
    refine Gate.collect_backed h (fun _ hg => by cases hg) fun c hc e he => ?_
    obtain ⟨φ, hφ⟩ := Option.isSome_iff_exists.mp (plain c hc)
    rw [ofCondition_eq hφ] at he
    exact mem_demands hc hφ (mem_firsts he)
  intro c hc
  obtain ⟨φ, hφ⟩ := Option.isSome_iff_exists.mp (plain c hc)
  have settled : ∀ l ∈ φ.literals false, ρ l.1 = (c.2 != l.2) := by
    intro l hl
    have demanded := mem_demands hc hφ hl
    obtain ⟨e, he, hn⟩ := exists_mem_firsts hl
    rw [← ofCondition_eq hφ] at he
    rcases Gate.collect_names h (.inr ⟨c, hc, e, he, hn⟩) with hr | hf
    · rw [required _ hr]
      exact consistent _ (backed.1 _ hr) _ demanded rfl
    · rw [falsy _ hf]
      exact consistent _ (backed.2 _ hf) _ demanded rfl
  rw [value?, hφ, Option.map_some, Formula.eval_of_literals φ false settled, Bool.bne_false]

end elements

/-! ### Recorded elements -/

theorem Markup.Scan.gate_of_gated {props : List ComponentProp} {v : Markup.Visit}
    {e : ConditionalElement} (h : Markup.Scan.ofVisit? props v = some (.gated e)) :
    ∃ g, Gate.ofEnclosures (props.map (·.name)) v.around = some g ∧ e.requiredProps = g.required ∧
      e.falsyProps = g.falsy := by
  unfold Markup.Scan.ofVisit? at h
  obtain ⟨tag, _, h⟩ := Option.bind_eq_some_iff.mp h
  obtain ⟨name, _, h⟩ := Option.bind_eq_some_iff.mp h
  dsimp only at h
  split at h
  · rename_i g hg
    split at h
    · cases h
      exact ⟨g, hg, rfl, rfl⟩
    · cases h
  · split at h <;> cases h

/-- Around an element that counts as always rendered, no condition mentions a prop. -/
theorem Markup.Scan.guards_of_always {props : List ComponentProp} {v : Markup.Visit}
    {e : InteractiveElement} (h : Markup.Scan.ofVisit? props v = some (.always e)) :
    Condition.guards (props.map (·.name)) v.around = [] := by
  unfold Markup.Scan.ofVisit? at h
  obtain ⟨tag, _, h⟩ := Option.bind_eq_some_iff.mp h
  obtain ⟨name, _, h⟩ := Option.bind_eq_some_iff.mp h
  dsimp only at h
  split at h
  · split at h <;> cases h
  · rename_i hg
    exact Gate.guards_of_collect_none hg

/-- A panel with a button that is rendered when `on` holds and `off` does not. -/
def panel : List Candidate :=
  ((Source.ofText ⟨"Panel.tsx"⟩
    "export const Panel=({on,off})=>off?null:<p>{!(off||!on)&&<button/>}</p>").toOption.map
      Candidate.ofSource).getD []

/-- The props of the panel. -/
def panelProps : List ComponentProp := ["on", "off"].map fun n => ⟨n, "boolean", true, false, true⟩

end Trellis
