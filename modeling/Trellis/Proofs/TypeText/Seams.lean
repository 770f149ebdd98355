import Trellis.Proofs.TypeText.Parens
import Trellis.Proofs.TypeText.Unions
import Trellis.Syntax.Lexeme

/-! # Places between two tokens

What stands at a place between two tokens of a type, a blank or a comment, is a part of the type's
text.

* `Seam` is such a place: the text before it and the text behind it. `Seam.normalize_text`: what is
  kept of the text is what is kept before the place, at it, and behind it.
* `Seam.splitBars_text`: what stands at the place, if a walk passes it, is a part of the operand
  there, and of no other.
* `Seam.includesUndefined_iff` and `Seam.includesUndefined_comment` say from this when `undefined`
  is found with a gap at the place and when with a comment. -/

namespace Trellis.TypeText

open Text.Blank

/-! ### Walks from places that are alike -/

namespace Scan

/-- The same place in more brackets. -/
def raise (n : Int) (s : Scan) : Scan := { s with depth := s.depth + n }

theorem step_raise (n : Int) (s : Scan) (c : Char) : (s.raise n).step c = (s.step c).raise n := by
  obtain ⟨d, quote, previous⟩ := s
  cases quote with
  | some q => rfl
  | none =>
      dsimp only [raise, step]
      split
      · rfl
      · simp only [mk.injEq, and_true]
        omega

theorem run_raise (n : Int) (s : Scan) (cs : List Char) :
    (s.raise n).run cs = (s.run cs).raise n := by
  induction cs generalizing s with
  | nil => rfl
  | cons c cs ih => rw [run_cons, run_cons, step_raise, ih]

theorem raise_back (s : Scan) (d d' : Int) : (s.raise (d' - d)).raise (d - d') = s := by
  obtain ⟨depth, quote, previous⟩ := s
  simp only [raise, mk.injEq, and_true]
  omega

theorem Settled.raise {d : Int} {s : Scan} (h : s.Settled d) (d' : Int) :
    (s.raise (d' - d)).Settled d' := by
  refine ⟨h.quote, ?_, h.previous⟩
  change s.depth + (d' - d) = d'
  rw [h.depth]
  omega

variable {d : Int} {s s' : Scan}

theorem depthChange_eq {x y : Char} (hx : x ≠ '=') (hy : y ≠ '=') (c : Char) :
    depthChange x c = depthChange y c := by
  rw [depthChange, decide_eq_true hx, depthChange, decide_eq_true hy]

theorem Settled.step_quote (h : s.Settled d) {c : Char} (hc : Text.isQuote c = true) :
    s.step c = ⟨d, some c, c⟩ := by
  rw [Scan.step, h.quote]
  dsimp only
  rw [if_pos hc, h.depth]

/-- Walks at one depth go on in the same way. -/
theorem Settled.step_eq (h : s.Settled d) (h' : s'.Settled d) (c : Char) :
    s.step c = s'.step c := by
  cases hc : Text.isQuote c with
  | true => rw [h.step_quote hc, h'.step_quote hc]
  | false => rw [h.step hc, h'.step hc, depthChange_eq h.previous h'.previous c]

theorem Settled.run_eq (h : s.Settled d) (h' : s'.Settled d) {cs : List Char} (hne : cs ≠ []) :
    s.run cs = s'.run cs := by
  cases cs with
  | nil => exact absurd rfl hne
  | cons c cs => rw [run_cons, run_cons, h.step_eq h' c]

theorem Settled.isTop_eq (h : s.Settled d) (h' : s'.Settled d) : s.isTop = s'.isTop := by
  rw [isTop, isTop, h.quote, h'.quote, h.depth, h'.depth]

theorem Settled.splitBars_eq (h : s.Settled d) (h' : s'.Settled d) (cs : List Char) :
    splitBars s cs = splitBars s' cs := by
  cases cs with
  | nil => rfl
  | cons c cs => rw [splitBars_cons, splitBars_cons, h.step_eq h' c, h.isTop_eq h']

theorem Settled.hasTopArrow_eq (h : s.Settled d) (h' : s'.Settled d) (cs : List Char) :
    hasTopArrow s cs = hasTopArrow s' cs := by
  cases cs with
  | nil => rfl
  | cons c cs =>
      rw [hasTopArrow, hasTopArrow, h.step_eq h' c, decide_eq_false h.previous,
        decide_eq_false h'.previous, Bool.and_false, Bool.and_false]

end Scan

/-! ### Pieces of a text and its end -/

/-- The last piece of a text. -/
def lastPiece (s : Scan) (cs : List Char) : List Char := (splitBars s cs).getLastD []

/-- The first piece of a text. -/
def firstPiece (s : Scan) (cs : List Char) : List Char := (splitBars s cs).headD []

theorem splitBars_eq_cons (s : Scan) (cs : List Char) :
    splitBars s cs = firstPiece s cs :: (splitBars s cs).tail := by
  obtain ⟨piece, more, h⟩ := List.exists_cons_of_ne_nil (splitBars_ne_nil s cs)
  rw [firstPiece, h]
  rfl

/-- A text goes on in its last piece, which is the whole text or begins outside of brackets. -/
theorem exists_lastPiece (s : Scan) (cs : List Char) :
    (∀ rest, splitBars s (cs ++ rest) =
      (splitBars s cs).dropLast ++ attach (lastPiece s cs) (splitBars (s.run cs) rest)) ∧
    (splitBars s cs = [cs] ∨ (splitBars s cs).dropLast ≠ [] ∧
      ∃ s' : Scan, s'.Settled 0 ∧ s'.run (lastPiece s cs) = s.run cs) := by
  induction cs generalizing s with
  | nil =>
      refine ⟨fun rest => ?_, .inl rfl⟩
      rw [List.nil_append, Scan.run_nil, splitBars_eq_cons s rest]
      rfl
  | cons c cs ih =>
      obtain ⟨happend, hrun⟩ := ih (s.step c)
      obtain ⟨piece, more, h⟩ := List.exists_cons_of_ne_nil (splitBars_ne_nil (s.step c) cs)
      rw [lastPiece, h] at happend hrun
      rw [lastPiece, Scan.run_cons]
      by_cases hbar : (s.isTop && decide (c = '|')) = true
      · -- The text up to this bar is a piece of its own.
        have hsplit (cs : List Char) : splitBars s (c :: cs) = [] :: splitBars (s.step c) cs := by
          rw [splitBars_cons, if_pos hbar]
        have hstep : (s.step c).Settled 0 := by
          obtain ⟨d, quote, previous⟩ := s
          rw [Bool.and_eq_true, decide_eq_true_eq, Scan.isTop, Bool.and_eq_true,
            decide_eq_true_eq, Option.isNone_iff_eq_none] at hbar
          obtain ⟨⟨rfl, rfl⟩, rfl⟩ := hbar
          exact ⟨rfl, rfl, show '|' ≠ '=' by decide⟩
        rw [hsplit, h]
        refine ⟨fun rest => ?_, .inr ⟨List.cons_ne_nil _ _, ?_⟩⟩
        · rw [List.cons_append, hsplit, happend]
          rfl
        · rcases hrun with hrun | hrun
          · cases hrun
            exact ⟨s.step c, hstep, rfl⟩
          · exact hrun.2
      · have hsplit (cs : List Char) :
            splitBars s (c :: cs) = attach [c] (splitBars (s.step c) cs) := by
          rw [splitBars_cons, if_neg hbar]
        rw [hsplit, h]
        cases more with
        | nil =>
            refine ⟨fun rest => ?_, .inl ?_⟩
            · rw [List.cons_append, hsplit, happend]
              exact (attach_append [c] _ _).symm
            · rcases hrun with hrun | hrun
              · cases hrun
                rfl
              · exact absurd rfl hrun.1
        | cons piece' more =>
            refine ⟨fun rest => ?_, .inr ⟨List.cons_ne_nil _ _, ?_⟩⟩
            · rw [List.cons_append, hsplit, happend]
              rfl
            · rcases hrun with hrun | hrun
              · cases hrun
              · exact hrun.2

/-! ### What is kept of the ends of a text -/

/-- A text after blanks, then characters of some kind, then blanks. -/
def cut (p : Char → Bool) (s : List Char) : List Char := trimStart ((trimStart s).dropWhile p)

/-- Whether a character may stand behind a type. -/
def isSeparator (c : Char) : Bool := c = ';' || c = ','

/-- What is kept of the beginning of a text. -/
def keptStart (s : List Char) : List Char := cut (· = '|') (squeeze s)

/-- What is kept of the end of a text. -/
def keptEnd (s : List Char) : List Char := (cut isSeparator (squeeze s).reverse).reverse

theorem dropWhile_append {p : Char → Bool} {s : List Char} (h : s.dropWhile p ≠ []) (s' : List Char)
    :
    (s ++ s').dropWhile p = s.dropWhile p ++ s' := by
  rw [List.dropWhile_append, if_neg (by rwa [List.isEmpty_iff])]

section cut
variable {p : Char → Bool} {s : List Char} (h : cut p s ≠ [])
include h

theorem trimStart_append_of_cut (s' : List Char) : trimStart (s ++ s') = trimStart s ++ s' := by
  refine trimStart_append (not_isGap_of_trimStart fun hs => h ?_)
  rw [cut, hs]
  rfl

theorem dropWhile_append_of_cut (s' : List Char) :
    (trimStart s ++ s').dropWhile p = (trimStart s).dropWhile p ++ s' := by
  refine dropWhile_append (fun hs => h ?_) s'
  rw [cut, hs]
  rfl

theorem trimStart_dropWhile_append_of_cut (s' : List Char) :
    trimStart ((trimStart s).dropWhile p ++ s') = cut p s ++ s' :=
  trimStart_append (not_isGap_of_trimStart h)

end cut

/-- What is taken away at the end of a text leaves what stands before it. -/
theorem exists_end {s : List Char} (h : keptEnd s ≠ []) : ∃ s' t, squeeze s = s' ++ t ∧ s' ≠ [] ∧
    (∀ x, ((trimEnd (x ++ squeeze s)).reverse.dropWhile fun c => c = ';' || c = ',').reverse =
      x ++ s') ∧
    ∀ x, trimEnd (x ++ s') = x ++ keptEnd s := by
  have hcut : cut isSeparator (squeeze s).reverse ≠ [] := fun hs => h (congrArg List.reverse hs)
  have htrim (x : List Char) :
      trimEnd (x ++ squeeze s) = x ++ (trimStart (squeeze s).reverse).reverse := by
    rw [trimEnd_eq, List.reverse_append, trimStart_append_of_cut hcut, List.reverse_append,
      List.reverse_reverse]
  refine ⟨((trimStart (squeeze s).reverse).dropWhile isSeparator).reverse, ?_⟩
  obtain ⟨blanks, hblanks⟩ : trimStart (squeeze s).reverse <:+ (squeeze s).reverse :=
    List.dropWhile_suffix _
  obtain ⟨separators, hseparators⟩ := List.dropWhile_suffix isSeparator
    (l := trimStart (squeeze s).reverse)
  refine ⟨separators.reverse ++ blanks.reverse, ?_, fun hnil => hcut ?_, fun x => ?_, fun x => ?_⟩
  · rw [← List.append_assoc, ← List.reverse_append, hseparators, ← List.reverse_append, hblanks,
      List.reverse_reverse]
  · rw [cut, List.reverse_eq_nil_iff.mp hnil]
    rfl
  · rw [htrim, List.reverse_append, List.reverse_reverse]
    change (List.dropWhile isSeparator _).reverse = _
    rw [dropWhile_append_of_cut hcut, List.reverse_append, List.reverse_reverse]
  · rw [trimEnd_eq, List.reverse_append, List.reverse_reverse,
      trimStart_dropWhile_append_of_cut hcut, List.reverse_append, List.reverse_reverse, keptEnd]

theorem dropWhile_of_head {p : Char → Bool} {s : List Char} (h : ∀ c ∈ s.head?, p c = false) :
    s.dropWhile p = s := by
  cases s with
  | nil => rfl
  | cons c s => rw [List.dropWhile_cons, h c rfl, if_neg Bool.false_ne_true]

/-! ### Seams -/

/-- A place between two tokens of a type: the text before it and the text behind it. -/
structure Seam where
  /-- The text before it. -/
  before : List Char
  /-- The text behind it. -/
  after : List Char
  /-- A token ends before it. -/
  ends : ∃ c ∈ before.getLast?, Text.isBlank c = false
  /-- A token starts behind it. -/
  starts : ∃ c ∈ after.head?, Text.isBlank c = false
  /-- Something is kept of the text behind it. -/
  stays : keptEnd after ≠ []
  /-- If only bars stand before it, none stands behind it. -/
  barless : keptStart before = [] → after.head? ≠ some '|'

namespace Seam

variable (σ : Seam) (m : List Char)

/-- The text of the type with a text at the place. -/
def text : String := String.ofList (σ.before ++ (m ++ σ.after))

/-- What is kept of a text at the place. -/
def kept : List Char := if keptStart σ.before = [] then trimStart (squeeze m) else squeeze m

theorem squeeze_text :
    squeeze (σ.before ++ (m ++ σ.after)) = squeeze σ.before ++ (squeeze m ++ squeeze σ.after) := by
  obtain ⟨c, hc, hblank⟩ := σ.ends
  obtain ⟨c', hc', hblank'⟩ := σ.starts
  have hne : σ.before ≠ [] := by
    intro hnil
    rw [hnil] at hc
    cases hc
  rw [squeeze_append_of_last hne, squeeze_append_of_startsTight]
  · rintro x hx
    cases hc'.symm.trans hx
    exact hblank'
  · rintro x hx
    cases hc.symm.trans hx
    exact hblank

/-- What is kept of the text is kept before the place, at it, and behind it. -/
theorem normalize_text (hm : m.head? ≠ some '|') : normalize (σ.text m) =
    String.ofList (keptStart σ.before ++ (σ.kept m ++ keptEnd σ.after)) := by
  obtain ⟨c, hc, hblank⟩ := σ.ends
  obtain ⟨c', hc', hblank'⟩ := σ.starts
  obtain ⟨s, t, hafter, hne, hdrop, htrim⟩ := exists_end σ.stays
  have hgap : ¬ IsGap (squeeze σ.before) := by
    rw [isGap_squeeze]
    intro h
    rw [h c (List.mem_of_getLast? hc)] at hblank
    cases hblank
  have hhead : s.head? = some c' := by
    obtain ⟨rest, hrest⟩ := List.head?_eq_some_iff.mp hc'
    rw [hrest, squeeze_of_not_blank hblank'] at hafter
    cases s with
    | nil => exact absurd rfl hne
    | cons x s => rw [List.head?_cons, (List.cons.inj hafter).1]
  have hnorm : normalize (σ.text m) = String.ofList (trim
      ((trimStart (squeeze σ.before) ++ (squeeze m ++ s)).dropWhile (· = '|'))) := by
    rw [normalize, Text.collapse_eq, text, String.toList_ofList, String.toList_ofList, squeeze_text,
      trim.eq_1 (_ ++ _), trimStart_append hgap, ← List.append_assoc, hdrop, List.append_assoc]
  rw [hnorm, kept]
  by_cases hstart : keptStart σ.before = []
  · -- Only bars stand before the place, and they are dropped.
    have hbars : (trimStart (squeeze σ.before)).dropWhile (· = '|') = [] := by
      rcases List.eq_nil_or_concat' ((trimStart (squeeze σ.before)).dropWhile (· = '|')) with
        hnil | ⟨init, x, hx⟩
      · exact hnil
      · have hlast : (squeeze σ.before).getLast? = some x := by
          obtain ⟨dropped, hdropped⟩ : [x] <:+ squeeze σ.before :=
            (List.suffix_append init [x]).trans
              (hx ▸ (List.dropWhile_suffix _).trans (List.dropWhile_suffix _))
          rw [← hdropped, List.getLast?_concat]
        have hblankx : IsGap (init ++ [x]) := by
          rw [← hx, ← isGap_trimStart, show trimStart _ = [] from hstart]
          exact .nil
        obtain ⟨init', hinit'⟩ := List.getLast?_eq_some_iff.mp hc
        rw [hinit', squeeze_append_of_startsTight (by rintro _ ⟨⟩; exact hblank),
          squeeze_of_not_blank hblank, squeeze, List.getLast?_concat] at hlast
        cases hlast
        rw [hblankx c (List.mem_append_right _ List.mem_cons_self)] at hblank
        cases hblank
    have hnext : (squeeze m ++ s).dropWhile (· = '|') = squeeze m ++ s := by
      refine dropWhile_of_head fun x hx => decide_eq_false ?_
      rw [List.head?_append, Option.mem_def, Option.or_eq_some_iff] at hx
      rcases hx with hx | ⟨-, hx⟩
      · exact fun hbar => hm (head?_of_squeeze (by decide) (hbar ▸ hx))
      · rintro rfl
        exact σ.barless hstart (hc'.trans (hhead.symm.trans hx))
    have htight : StartsTight s := by
      rintro x hx
      cases hhead.symm.trans hx
      exact hblank'
    rw [if_pos hstart, List.dropWhile_append, hbars, if_pos List.isEmpty_nil, hnext, trim,
      trimStart_append_of_startsTight htight, htrim, hstart]
    rfl
  · rw [if_neg hstart, dropWhile_append_of_cut hstart, trim,
      trimStart_dropWhile_append_of_cut hstart,
      ← List.append_assoc, htrim, List.append_assoc]
    rfl

/-! ### The operand at a seam -/

/-- Where a walk is at the place. -/
def scan : Scan := Scan.start.run (keptStart σ.before)

/-- Whether the place is outside of literals. -/
def IsOpen : Prop := σ.scan.Settled σ.scan.depth

/-- The operand at the place, with a text there. -/
def operand : List Char :=
  lastPiece .start (keptStart σ.before) ++ (σ.kept m ++ firstPiece σ.scan (keptEnd σ.after))

/-- The other operands. -/
def others : List (List Char) :=
  (splitBars .start (keptStart σ.before)).dropLast ++ (splitBars σ.scan (keptEnd σ.after)).tail

/-- Whether a walk passes a text at the place: it closes what it opens, and a bar or an arrow in it
stands in brackets. -/
structure Passes : Prop where
  /-- It does not begin with a bar. -/
  head : m.head? ≠ some '|'
  /-- A walk passes what is kept of it. -/
  kept : TypeText.Passes σ.scan.depth (σ.kept m)

variable {σ m}

/-- A text that is passed is a part of the operand at the place, and of no other. -/
theorem splitBars_text (hσ : σ.IsOpen) (hm : σ.Passes m) :
    splitBars .start (normalize (σ.text m)).toList =
      (splitBars .start (keptStart σ.before)).dropLast ++
        σ.operand m :: (splitBars σ.scan (keptEnd σ.after)).tail := by
  obtain ⟨hquiet, hrun⟩ := hm.kept σ.scan hσ
  rw [σ.normalize_text m hm.head, String.toList_ofList, (exists_lastPiece _ _).1,
    show Scan.start.run (keptStart σ.before) = σ.scan from rfl, splitBars_of_quiet hquiet,
    hrun.splitBars_eq hσ, splitBars_eq_cons σ.scan, attach, attach, operand]
  rfl

theorem mem_members_iff {x text : List Char} (hx : x ≠ []) :
    x ∈ members text ↔ ∃ o ∈ splitBars .start text, bare o = x := by
  rw [members, List.mem_filter, List.mem_map]
  refine and_iff_left ?_
  cases x with
  | nil => exact absurd rfl hx
  | cons _ _ => rfl

/-- When `undefined` is found. -/
theorem includesUndefined_iff (hσ : σ.IsOpen) (hm : σ.Passes m) :
    includesUndefined (normalize (σ.text m)) = true ↔
      bare (σ.operand m) = "undefined".toList ∨ ∃ o ∈ σ.others, bare o = "undefined".toList := by
  rw [includesUndefined, List.contains_iff_mem, mem_unionMembers_iff,
    mem_members_iff (by decide), splitBars_text hσ hm, others]
  simp only [List.mem_append, List.mem_cons]
  constructor
  · rintro ⟨o, ho | rfl | ho, hbare⟩
    · exact .inr ⟨o, .inl ho, hbare⟩
    · exact .inl hbare
    · exact .inr ⟨o, .inr ho, hbare⟩
  · rintro (hbare | ⟨o, ho | ho, hbare⟩)
    · exact ⟨_, .inr (.inl rfl), hbare⟩
    · exact ⟨o, .inl ho, hbare⟩
    · exact ⟨o, .inr (.inr ho), hbare⟩

end Seam

/-! ### Comments at a seam -/

/-- Whether a text is a comment, perhaps between blanks. One that reaches to the end of its line has
the line break behind it. -/
def IsComment (m : List Char) : Prop :=
  ∃ gap c gap', m = gap ++ (c ++ gap') ∧ IsGap gap ∧ IsGap gap' ∧
    Syntax.Lexeme.comment? c = some c.length ∧ (gap' = [] → c.getLast? = some '/')

/-- A comment begins with a slash. -/
theorem IsComment.slash_mem {m : List Char} (h : IsComment m) : '/' ∈ m := by
  obtain ⟨gap, c, gap', rfl, -, -, hc, -⟩ := h
  unfold Syntax.Lexeme.comment? at hc
  split at hc
  · simp
  · simp
  · cases hc

namespace Seam

variable {σ : Seam} {m : List Char}

theorem mem_kept {c : Char} (hc : Text.isBlank c = false) : c ∈ σ.kept m ↔ c ∈ m := by
  rw [kept]
  split
  · rw [mem_trimStart hc, mem_squeeze hc]
  · rw [mem_squeeze hc]

/-- A character that is neither a blank nor a parenthesis is not taken away. -/
theorem mem_bare {c : Char} (hc : isSolid c = true) {s : List Char} (h : c ∈ s) : c ∈ bare s := by
  obtain ⟨hblank, hopen, hclose⟩ := isSolid_iff.mp hc
  rcases (encloses_bare s).mem h with hmem | hmem | hmem | hmem
  · exact hmem
  · rw [hblank] at hmem
    cases hmem
  · exact absurd hmem hopen
  · exact absurd hmem hclose

/-- An operand with a comment has a slash. -/
theorem slash_mem_operand (hm : IsComment m) : '/' ∈ bare (σ.operand m) :=
  mem_bare (by decide) (List.mem_append_right _ (List.mem_append_left _
    ((mem_kept (by decide)).mpr hm.slash_mem)))

/-- An operand with a comment is no word. -/
theorem bare_operand_ne (hm : IsComment m) {word : List Char} (h : '/' ∉ word) :
    bare (σ.operand m) ≠ word :=
  fun heq => h (heq ▸ slash_mem_operand hm)

/-- With a comment at the place, `undefined` is found just when it is another operand. -/
theorem includesUndefined_comment (hσ : σ.IsOpen) (hm : σ.Passes m) (hcomment : IsComment m) :
    includesUndefined (normalize (σ.text m)) = true ↔
      ∃ o ∈ σ.others, bare o = "undefined".toList := by
  rw [includesUndefined_iff hσ hm]
  exact or_iff_right (bare_operand_ne hcomment (by decide))

end Seam

end Trellis.TypeText
