import Mathlib.Data.List.Forall2
import Trellis.Proofs.TypeText.Parens

/-! # The members of a type's text

What the text of a type falls into.

* `splitBars_spells`: the text is cut at the bars of the type and at those of the result of a
  function type.
* `members_spells`: each of its members is what is left of such a piece. -/

namespace Trellis.TypeText

open Text.Blank

/-! ### Pieces -/

/-- A bar outside of brackets cuts. -/
theorem splitBars_bar {s : Scan} (hs : s.Settled 0) (rest : List Char) :
    splitBars s ('|' :: rest) = [] :: splitBars (s.step '|') rest ∧ (s.step '|').Settled 0 := by
  have htop : s.isTop = true := (isTop_of_settled hs).mpr rfl
  have hstep := hs.step (c := '|') rfl
  rw [show Scan.depthChange s.previous '|' = 0 from rfl, Int.add_zero] at hstep
  refine ⟨?_, ?_⟩
  · rw [splitBars_cons, htop]
    rfl
  · rw [hstep]
    exact ⟨rfl, rfl, show '|' ≠ '=' by decide⟩

/-- An arrow does not cut. -/
theorem splitBars_arrow {s : Scan} (hs : s.Settled 0) (rest : List Char) :
    splitBars s ('=' :: '>' :: rest) =
      attach ['=', '>'] (splitBars (s.run ['=', '>']) rest) ∧
    (s.run ['=', '>']).Settled 0 := by
  refine ⟨?_, ?_⟩
  · rw [splitBars_cons, splitBars_cons]
    have hne (s : Scan) (c : Char) (hc : c ≠ '|') : ¬ (s.isTop && decide (c = '|')) = true := by
      simp [hc]
    rw [if_neg (hne _ _ (by decide)), if_neg (hne _ _ (by decide)), ← attach_append]
    rfl
  · rw [hs.run_arrow.2]
    exact ⟨rfl, rfl, show '>' ≠ '=' by decide⟩

/-- An arrow outside of brackets is found. -/
theorem hasTopArrow_arrow {s : Scan} (hs : s.Settled 0) (rest : List Char) :
    hasTopArrow s ('=' :: '>' :: rest) = true := by
  rw [hasTopArrow, hasTopArrow, hs.run_arrow.1]
  simp [Scan.isTop]

section Closing

variable {f : Literal → Literal}

/-- Whether all literals among tokens close. -/
def AllClose (f : Literal → Literal) (ts : List Token) : Prop :=
  ∀ l, .literal l ∈ ts → (f l).Closes

theorem AllClose.append {ts us : List Token} :
    AllClose f (ts ++ us) ↔ AllClose f ts ∧ AllClose f us := by
  simp only [AllClose, List.mem_append, or_imp, forall_and]

theorem AllClose.tail {t : Token} {ts : List Token} (h : AllClose f (t :: ts)) : AllClose f ts :=
  fun l hl => h l (List.mem_cons_of_mem t hl)

/-- The text of an operand is passed outside of brackets, too. -/
theorem Operand.passes {o : Operand} {p : List Char} (hclose : AllClose f o.tokens)
    (h : Spells f o.tokens p) : Passes 0 p :=
  o.woven.passes hclose h (Int.le_refl 0) fun h => absurd h Bool.false_ne_true

/-- The text of operands, each behind a bar, is cut before each of them. -/
theorem splitBars_barTokens {ms : List Operand} {s : Scan} (hs : s.Settled 0) {text : List Char}
    (hclose : AllClose f (barTokens ms)) (h : Spells f (barTokens ms) text) :
    ∃ gap pieces, splitBars s text = gap :: pieces ∧ IsGap gap ∧
      List.Forall₂ (fun o p => Spells f o.tokens p) ms pieces := by
  induction ms generalizing s text with
  | nil =>
      have hgap : IsGap text := Spells.nil_iff.mp h
      have := splitBars_of_quiet (Passes.blanks hgap 0 s hs).1 []
      rw [List.append_nil] at this
      exact ⟨text, [], by rw [this, splitBars, attach, List.append_nil], hgap, .nil⟩
  | cons m ms ih =>
      obtain ⟨gap, text, rfl, hgap, h⟩ := Spells.cons_iff.mp h
      obtain ⟨a, b, rfl, ha, hb⟩ := Spells.append_iff.mp h
      obtain ⟨hm, hms⟩ := AllClose.append.mp hclose.tail
      obtain ⟨hquiet, hs⟩ := Passes.blanks hgap 0 s hs
      obtain ⟨hbar, hs⟩ := splitBars_bar hs (a ++ b)
      obtain ⟨hquiet', hs⟩ := m.passes hm ha _ hs
      obtain ⟨gap', pieces, hpieces, hgap', hall⟩ := ih hs hms hb
      refine ⟨gap, (a ++ gap') :: pieces, ?_, hgap, .cons (ha.append_gap hgap') hall⟩
      rw [splitBars_of_quiet hquiet, show Token.chars f .bar = ['|'] from rfl,
        List.singleton_append, hbar, splitBars_of_quiet hquiet', hpieces, attach, attach,
        List.append_nil]

/-- Parameters in parentheses are passed up to the arrow behind them. -/
theorem Spells.exists_arrow {inner ts : List Token} {p : List Char} (hclose : AllClose f inner)
    (hwoven : Woven true inner)
    (hp : Spells f (.opening .round :: (inner ++ .closing .round :: .arrow :: ts)) p) :
    ∃ a b, p = a ++ '=' :: '>' :: b ∧ Passes 0 a ∧
      Spells f (.opening .round :: (inner ++ [.closing .round])) a ∧ Spells f ts b := by
  have hsplit : .opening .round :: (inner ++ .closing .round :: .arrow :: ts) =
      (.opening .round :: (inner ++ [.closing .round])) ++ .arrow :: ts := by
    rw [List.cons_append, List.append_assoc, List.singleton_append]
  rw [hsplit] at hp
  obtain ⟨a, b, rfl, ha, hb⟩ := append_iff.mp hp
  obtain ⟨gap, b, rfl, hgap, hb⟩ := cons_iff.mp hb
  have hgroup : Woven false (.opening .round :: (inner ++ [.closing .round])) :=
    .enclosed .round hwoven
  have hparams : AllClose f (.opening .round :: (inner ++ [.closing .round])) := by
    intro l hl
    rcases List.mem_append.mp ((List.mem_cons.mp hl).resolve_left Token.noConfusion) with hl | hl
    · exact hclose l hl
    · cases List.mem_singleton.mp hl
  have hpasses : Passes 0 (a ++ gap) :=
    (hgroup.passes hparams ha (Int.le_refl 0) fun h => absurd h Bool.false_ne_true).append
      (.blanks hgap 0)
  exact ⟨a ++ gap, b, by rw [List.append_assoc]; rfl, hpasses, ha.append_gap hgap, hb⟩

/-- The text of a type is cut at its bars and at those of the result of a function type. -/
theorem splitBars_spells : (t : TypeExpr) → {s : Scan} → (hs : s.Settled 0) → {text : List Char} →
    AllClose f t.tokens → Spells f t.tokens text → ∃ head pieces,
      splitBars s text = head :: pieces ∧ Spells f t.headTokens head ∧
      List.Forall₂ (fun o p => Spells f o.tokens p) t.later pieces
  | .union first rest, s, hs, text, hclose, h => by
      obtain ⟨a, b, rfl, ha, hb⟩ := Spells.append_iff.mp h
      obtain ⟨hfirst, hrest⟩ := AllClose.append.mp hclose
      obtain ⟨hquiet, hs⟩ := first.passes hfirst ha _ hs
      obtain ⟨gap, pieces, hpieces, hgap, hall⟩ := splitBars_barTokens hs hrest hb
      exact ⟨a ++ gap, pieces, by rw [splitBars_of_quiet hquiet, hpieces, attach],
        ha.append_gap hgap, hall⟩
  | .function params result, s, hs, text, hclose, h => by
      obtain ⟨hparams, harrow⟩ := AllClose.append.mp hclose.tail
      obtain ⟨a, b, rfl, hpasses, ha, hb⟩ :=
        h.exists_arrow hparams (woven_entryTokens .comma params)
      obtain ⟨hquiet, hs⟩ := hpasses s hs
      obtain ⟨hcut, hs⟩ := splitBars_arrow hs b
      -- The arrow is no cut, so the first piece of the result goes on with the parameters.
      obtain ⟨head, pieces, hpieces, hhead, hall⟩ :=
        splitBars_spells result hs harrow.tail.tail hb
      refine ⟨a ++ ('=' :: '>' :: head), pieces, ?_, ?_, hall⟩
      · rw [splitBars_of_quiet hquiet, hcut, hpieces]
        rfl
      · have hspells := ha.append (.cons (t := .arrow) .nil hhead)
        rw [List.cons_append, List.append_assoc, List.singleton_append] at hspells
        exact hspells

theorem bare_ne_nil_of_pieces {os : List Operand} {pieces : List (List Char)}
    (hall : List.Forall₂ (fun o p => Spells f o.tokens p) os pieces) :
    ∀ p ∈ pieces, bare p ≠ [] := by
  induction hall with
  | nil => exact fun p hp => absurd hp List.not_mem_nil
  | cons hp _ ih => exact List.forall_mem_cons.mpr ⟨bare_ne_nil hp (Operand.exists_solid f _), ih⟩

/-- The members of a type's text are what is left of its pieces. -/
theorem members_spells {t : TypeExpr} {text : String} (hclose : AllClose f t.tokens)
    (h : t.WrittenAs f text) : ∃ head pieces,
    members text.toList = bare head :: pieces.map bare ∧ Spells f t.headTokens head ∧
    List.Forall₂ (fun o p => Spells f o.tokens p) t.later pieces := by
  have hleft {head : List Char} {pieces : List (List Char)} (hhead : Spells f t.headTokens head)
      (hall : List.Forall₂ (fun o p => Spells f o.tokens p) t.later pieces) :
      ((head :: pieces).map bare).filter (! ·.isEmpty) = bare head :: pieces.map bare := by
    rw [List.filter_eq_self.mpr, List.map_cons]
    rw [List.forall_mem_map, List.forall_mem_cons]
    simp only [Bool.not_eq_true', List.isEmpty_eq_false_iff]
    exact ⟨bare_ne_nil hhead (t.exists_solid f), bare_ne_nil_of_pieces hall⟩
  rcases h with h | h
  · obtain ⟨head, pieces, hpieces, hhead, hall⟩ :=
      splitBars_spells t Scan.settled_start hclose h
    exact ⟨head, pieces, by rw [members, hpieces, hleft hhead hall], hhead, hall⟩
  · obtain ⟨gap, rest, hrest, hgap, h⟩ := Spells.cons_iff.mp h
    obtain ⟨hquiet, hs⟩ := Passes.blanks hgap 0 _ Scan.settled_start
    obtain ⟨hbar, hs⟩ := splitBars_bar hs rest
    obtain ⟨head, pieces, hpieces, hhead, hall⟩ := splitBars_spells t hs hclose h
    refine ⟨head, pieces, ?_, hhead, hall⟩
    have hnil : bare gap = [] := by
      rw [bare, trim, trimStart_of_isGap hgap]
      rfl
    rw [members, hrest, splitBars_of_quiet hquiet, show Token.chars f .bar = ['|'] from rfl,
      List.singleton_append, hbar, hpieces, attach, List.append_nil, List.map_cons, hnil,
      List.filter_cons, List.isEmpty_nil, Bool.not_true, if_neg Bool.false_ne_true,
      hleft hhead hall]

/-- A word is left of one of some pieces just when one of their operands is this word, perhaps in
parentheses. -/
theorem word_mem_map_bare_iff {os : List Operand} {pieces : List (List Char)}
    (hall : List.Forall₂ (fun o p => Spells f o.tokens p) os pieces) (w : Word) :
    w.chars ∈ pieces.map bare ↔ ∃ o ∈ os, ∃ w', o.peel = .word w' ∧ w'.chars = w.chars := by
  induction hall with
  | nil => simp
  | cons hp _ ih =>
      rw [List.map_cons, List.mem_cons, ih, eq_comm, Operand.bare_eq_word_iff hp,
        List.exists_mem_cons_iff]

/-- A word is a member of a type's text just when an operand between the bars outside of brackets is
this word, perhaps in parentheses. -/
theorem word_mem_members_iff {t : TypeExpr} {text : String} (hclose : AllClose f t.tokens)
    (h : t.WrittenAs f text) (w : Word) :
    w.chars ∈ members text.toList ↔
      ∃ o ∈ t.atBars, ∃ w', o.peel = .word w' ∧ w'.chars = w.chars := by
  obtain ⟨head, pieces, hmembers, hhead, hall⟩ := members_spells hclose h
  rw [hmembers]
  cases t with
  | union first rest =>
      rw [← List.map_cons]
      exact word_mem_map_bare_iff (.cons hhead hall) w
  | function params result =>
      have hne : w.chars ≠ bare head := fun heq =>
        (heq ▸ encloses_bare head : Encloses w.chars head).notMem_marks hhead (u := .arrow)
          (List.mem_cons_of_mem _ (List.mem_append_right _ (List.mem_cons_of_mem _
            List.mem_cons_self))) List.mem_cons_self rfl (by decide)
      rw [List.mem_cons, or_iff_right hne]
      exact word_mem_map_bare_iff hall w

end Closing

end Trellis.TypeText
