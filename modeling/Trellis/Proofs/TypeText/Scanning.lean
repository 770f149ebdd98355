import Trellis.Proofs.TypeText.Spelling

/-! # Walking through the text of a type

How far a walk through a type's text can tell where a type's own bars and arrows are.

* `Woven` says that tokens are properly bracketed, with bars and arrows in brackets only or, when
  loose, anywhere. The tokens of operands are woven, those of types loosely.
* `Woven.passes`: a walk through the text of such tokens comes out where it went in, and meets no
  bar or arrow outside of brackets on its way. This needs literals that do not end in a
  backslash. -/

namespace Trellis.TypeText

open Text.Blank

/-! ### Walks -/

namespace Scan

/-- Goes on by a text. -/
def run (s : Scan) (cs : List Char) : Scan := cs.foldl step s

@[simp] theorem run_nil (s : Scan) : s.run [] = s := rfl

@[simp] theorem run_cons (s : Scan) (c : Char) (cs : List Char) :
    s.run (c :: cs) = (s.step c).run cs := rfl

@[simp] theorem run_append (s : Scan) (cs ds : List Char) :
    s.run (cs ++ ds) = (s.run cs).run ds := List.foldl_append

/-- Whether no bar and no arrow on the way stands outside of brackets and literals. -/
def Quiet : Scan → List Char → Prop
  | _, [] => True
  | s, c :: cs =>
    (s.isTop = true → c ≠ '|' ∧ ¬ (c = '>' ∧ s.previous = '=')) ∧ Quiet (s.step c) cs

theorem quiet_append (s : Scan) (cs ds : List Char) :
    s.Quiet (cs ++ ds) ↔ s.Quiet cs ∧ (s.run cs).Quiet ds := by
  induction cs generalizing s with
  | nil => simp [Quiet]
  | cons c cs ih => simp only [List.cons_append, Quiet, ih, run_cons, and_assoc]

/-- Whether no bar on the way stands outside of brackets and literals. -/
def Barless : Scan → List Char → Prop
  | _, [] => True
  | s, c :: cs => (s.isTop = true → c ≠ '|') ∧ Barless (s.step c) cs

instance decidableBarless : (s : Scan) → (cs : List Char) → Decidable (s.Barless cs)
  | _, [] => .isTrue trivial
  | s, c :: cs =>
    have := decidableBarless (s.step c) cs
    inferInstanceAs (Decidable (_ ∧ _))

theorem Quiet.barless {s : Scan} {cs : List Char} (h : s.Quiet cs) : s.Barless cs := by
  induction cs generalizing s with
  | nil => trivial
  | cons c cs ih => exact ⟨fun htop => (h.1 htop).1, ih h.2⟩

end Scan

/-- Puts a text before the first of some pieces. -/
def attach (cs : List Char) : List (List Char) → List (List Char)
  | [] => [cs]
  | piece :: more => (cs ++ piece) :: more

theorem splitBars_cons (s : Scan) (c : Char) (rest : List Char) : splitBars s (c :: rest) =
    if s.isTop && c = '|' then [] :: splitBars (s.step c) rest
    else attach [c] (splitBars (s.step c) rest) := by
  rw [splitBars]
  split
  · rfl
  · cases splitBars (s.step c) rest <;> rfl

theorem splitBars_ne_nil (s : Scan) (cs : List Char) : splitBars s cs ≠ [] := by
  cases cs with
  | nil => exact List.cons_ne_nil _ _
  | cons c cs =>
      rw [splitBars_cons]
      split
      · exact List.cons_ne_nil _ _
      · cases splitBars (s.step c) cs <;> exact List.cons_ne_nil _ _

theorem attach_append (cs ds : List Char) (pieces : List (List Char)) :
    attach (cs ++ ds) pieces = attach cs (attach ds pieces) := by
  cases pieces with
  | nil => rfl
  | cons piece more => rw [attach, attach, attach, List.append_assoc]

/-- What meets no bar outside of brackets stays in one piece. -/
theorem splitBars_of_barless {s : Scan} {cs : List Char} (h : s.Barless cs) (rest : List Char) :
    splitBars s (cs ++ rest) = attach cs (splitBars (s.run cs) rest) := by
  induction cs generalizing s with
  | nil =>
      rw [List.nil_append, Scan.run_nil]
      cases hs : splitBars s rest with
      | nil => exact absurd hs (splitBars_ne_nil s rest)
      | cons piece more => rfl
  | cons c cs ih =>
      obtain ⟨hc, hcs⟩ := h
      have hbar : ¬ (s.isTop && decide (c = '|')) = true := by
        rw [Bool.and_eq_true, decide_eq_true_eq]
        exact fun h => hc h.1 h.2
      rw [List.cons_append, splitBars_cons, if_neg hbar, ih hcs, ← attach_append]
      rfl

/-- What a walk passes quietly stays in one piece. -/
theorem splitBars_of_quiet {s : Scan} {cs : List Char} (h : s.Quiet cs) (rest : List Char) :
    splitBars s (cs ++ rest) = attach cs (splitBars (s.run cs) rest) :=
  splitBars_of_barless h.barless rest

/-- What a walk passes quietly holds no arrow. -/
theorem hasTopArrow_of_quiet {s : Scan} {cs : List Char} (h : s.Quiet cs) (rest : List Char) :
    hasTopArrow s (cs ++ rest) = hasTopArrow (s.run cs) rest := by
  induction cs generalizing s with
  | nil => rfl
  | cons c cs ih =>
      obtain ⟨hc, hcs⟩ := h
      have harrow : (s.isTop && decide (c = '>') && decide (s.previous = '=')) = false := by
        cases htop : s.isTop with
        | false => rfl
        | true =>
            have hno := (hc htop).2
            rw [not_and] at hno
            by_cases hgt : c = '>'
            · simp [hno hgt]
            · simp [hgt]
      rw [List.cons_append, hasTopArrow, harrow, Bool.false_or, ih hcs]
      rfl

/-! ### Places to start from -/

/-- Whether a walk is at depth `d`, outside of literals and not behind `=`. -/
structure Scan.Settled (d : Int) (s : Scan) : Prop where
  /-- It is outside of literals. -/
  quote : s.quote = none
  /-- It is at depth `d`. -/
  depth : s.depth = d
  /-- It is not behind `=`. -/
  previous : s.previous ≠ '='

theorem Scan.settled_start : Scan.start.Settled 0 := ⟨rfl, rfl, by decide⟩

/-- Whether each walk at depth `d` passes a text quietly and is at this depth again. -/
def Passes (d : Int) (cs : List Char) : Prop :=
  ∀ s : Scan, s.Settled d → s.Quiet cs ∧ (s.run cs).Settled d

theorem Passes.nil (d : Int) : Passes d [] := fun _ h => ⟨trivial, h⟩

theorem Passes.append {d : Int} {cs ds : List Char} (h : Passes d cs) (h' : Passes d ds) :
    Passes d (cs ++ ds) := by
  intro s hs
  obtain ⟨hquiet, hrun⟩ := h s hs
  obtain ⟨hquiet', hrun'⟩ := h' _ hrun
  exact ⟨(s.quiet_append cs ds).mpr ⟨hquiet, hquiet'⟩, s.run_append cs ds ▸ hrun'⟩

/-- A step at a settled place by a character that is no quote. -/
theorem Scan.Settled.step {d : Int} {s : Scan} (h : s.Settled d) {c : Char}
    (hc : Text.isQuote c = false) :
    s.step c = ⟨d + depthChange s.previous c, none, c⟩ := by
  rw [Scan.step, h.quote]
  dsimp only
  rw [if_neg (by rw [hc]; exact Bool.false_ne_true), h.depth]

theorem isTop_of_settled {d : Int} {s : Scan} (h : s.Settled d) :
    s.isTop = true ↔ d = 0 := by
  rw [Scan.isTop, h.quote, h.depth]
  simp

/-- A character that means nothing is passed. -/
theorem Passes.char {c : Char} (h : c ∉ marks) (d : Int) : Passes d [c] := by
  simp only [marks, List.mem_cons, List.not_mem_nil, or_false, not_or] at h
  intro s hs
  have hquote : Text.isQuote c = false := by simp [Text.isQuote, h]
  have hstep := hs.step hquote
  have hdepth : Scan.depthChange s.previous c = 0 := by simp [Scan.depthChange, h]
  rw [hdepth, Int.add_zero] at hstep
  refine ⟨⟨fun _ => ⟨h.2.2.2.2.2.2.2.2.1, fun hgt => h.2.2.2.2.2.2.2.1 hgt.1⟩, trivial⟩, ?_⟩
  rw [Scan.run_cons, hstep, Scan.run_nil]
  exact ⟨rfl, rfl, h.2.2.2.2.2.2.2.2.2.1⟩

/-- A character in a literal that does not close it. -/
theorem Scan.step_quoted {s : Scan} {q c : Char} (h : s.quote = some q)
    (hc : c ≠ q ∨ s.previous = '\\') : s.step c = ⟨s.depth, some q, c⟩ := by
  rw [Scan.step, h]
  dsimp only
  rw [if_neg fun hclose => ?_]
  rw [Bool.and_eq_true, decide_eq_true_eq, decide_eq_true_eq] at hclose
  exact hc.elim (absurd hclose.1) hclose.2

/-- The content of a literal does not leave it. -/
theorem Scan.run_content {q : Char} {cs : List Char} (h : isContent q cs = true) (hq : q ≠ '\\')
    {s : Scan} (hs : s.quote = some q) :
    s.Quiet cs ∧ s.run cs = ⟨s.depth, some q, cs.getLast?.getD s.previous⟩ := by
  have hquoted (s : Scan) (hs : s.quote = some q) : ¬ s.isTop = true := by
    rw [Scan.isTop, hs]
    exact Bool.false_ne_true
  fun_induction isContent q cs generalizing s with
  | case1 => exact ⟨trivial, by rw [← hs]; rfl⟩
  | case2 c cs ih =>
      obtain ⟨d, quote, previous⟩ := s
      have hfirst := Scan.step_quoted hs (c := '\\') (.inl hq.symm)
      have hsecond : (Scan.step ⟨d, some q, '\\'⟩ c) = ⟨d, some q, c⟩ :=
        Scan.step_quoted rfl (.inr rfl)
      obtain ⟨hquiet, hrun⟩ := ih h (s := ⟨d, some q, c⟩) rfl
      refine ⟨⟨fun htop => absurd htop (hquoted _ hs), ?_⟩, ?_⟩
      · rw [hfirst]
        refine ⟨fun htop => absurd htop (hquoted _ rfl), ?_⟩
        rw [hsecond]
        exact hquiet
      · rw [run_cons, run_cons, hfirst, hsecond, hrun, List.getLast?_cons_cons,
          List.getLast?_cons]
        rfl
  | case3 c cs _ ih =>
      rw [Bool.and_eq_true, Bool.and_eq_true, decide_eq_true_eq] at h
      have hfirst := Scan.step_quoted hs (.inl h.1.1)
      obtain ⟨hquiet, hrun⟩ := ih h.2 (s := ⟨s.depth, some q, c⟩) rfl
      refine ⟨⟨fun htop => absurd htop (hquoted _ hs), hfirst ▸ hquiet⟩, ?_⟩
      rw [run_cons, hfirst, hrun, List.getLast?_cons]
      rfl

theorem Literal.isQuote_quote (l : Literal) : Text.isQuote l.quote = true := by
  rcases l.isQuote with h | h <;> rw [h] <;> rfl

/-- A literal is passed when it does not end in a backslash. -/
theorem Passes.literal {l : Literal} (h : l.Closes) {d : Int} : Passes d l.chars := by
  intro s hs
  have hopen : s.step l.quote = ⟨d, some l.quote, l.quote⟩ := by
    rw [Scan.step, hs.quote]
    dsimp only
    rw [if_pos l.isQuote_quote, hs.depth]
  have hback : l.quote ≠ '\\' := l.quote_ne (by decide) (by decide)
  obtain ⟨hquiet, hrun⟩ :=
    Scan.run_content l.isContent hback (s := ⟨d, some l.quote, l.quote⟩) rfl
  have hlast : l.content.getLast?.getD l.quote ≠ '\\' := by
    rcases hc : l.content.getLast? with _ | c
    · exact hback
    · rintro rfl
      exact h hc
  have hclose : Scan.step ⟨d, some l.quote, l.content.getLast?.getD l.quote⟩ l.quote =
      ⟨d, none, l.quote⟩ := by
    simp [Scan.step, hlast]
  have hbar : l.quote ≠ '|' := l.quote_ne (by decide) (by decide)
  have hgt : l.quote ≠ '>' := l.quote_ne (by decide) (by decide)
  have heq : l.quote ≠ '=' := l.quote_ne (by decide) (by decide)
  rw [Literal.chars, Scan.run_cons, Scan.run_append, hopen, hrun, Scan.run_cons, hclose]
  refine ⟨⟨fun _ => ⟨hbar, fun hc => hgt hc.1⟩, ?_⟩, rfl, rfl, heq⟩
  rw [hopen, Scan.quiet_append, hrun]
  exact ⟨hquiet, fun htop => absurd htop Bool.false_ne_true, trivial⟩

/-! ### Woven tokens -/

/-- Whether tokens are properly bracketed, with bars and arrows in brackets only or, when `loose`,
anywhere. -/
inductive Woven : Bool → List Token → Prop
  | nil {loose : Bool} : Woven loose []
  | word {loose : Bool} {w : Word} {ts : List Token} (h : Woven loose ts) :
      Woven loose (.word w :: ts)
  | literal {loose : Bool} {l : Literal} {ts : List Token} (h : Woven loose ts) :
      Woven loose (.literal l :: ts)
  | mark {loose : Bool} {m : Mark} {ts : List Token} (h : Woven loose ts) :
      Woven loose (.mark m :: ts)
  | bracket {loose : Bool} {k : Bracket} {inner ts : List Token} (hinner : Woven true inner)
      (h : Woven loose ts) : Woven loose (.opening k :: (inner ++ .closing k :: ts))
  | bar {ts : List Token} (h : Woven true ts) : Woven true (.bar :: ts)
  | arrow {ts : List Token} (h : Woven true ts) : Woven true (.arrow :: ts)

namespace Woven

theorem append {loose : Bool} {ts us : List Token} (h : Woven loose ts) (h' : Woven loose us) :
    Woven loose (ts ++ us) := by
  induction h with
  | nil => exact h'
  | word _ ih => exact .word (ih h')
  | literal _ ih => exact .literal (ih h')
  | mark _ ih => exact .mark (ih h')
  | bracket hinner _ _ ih =>
      rw [List.cons_append, List.append_assoc, List.cons_append]
      exact .bracket hinner (ih h')
  | bar _ ih => exact .bar (ih h')
  | arrow _ ih => exact .arrow (ih h')

/-- Bars and arrows may be left out. -/
theorem loosen {loose : Bool} {ts : List Token} (h : Woven loose ts) : Woven true ts := by
  induction h with
  | nil => exact .nil
  | word _ ih => exact .word ih
  | literal _ ih => exact .literal ih
  | mark _ ih => exact .mark ih
  | bracket hinner _ _ ih => exact .bracket hinner ih
  | bar h _ => exact .bar h
  | arrow h _ => exact .arrow h

/-- A single pair of brackets. -/
theorem enclosed {loose : Bool} (k : Bracket) {inner : List Token} (h : Woven true inner) :
    Woven loose (.opening k :: (inner ++ [.closing k])) := .bracket h .nil

end Woven

theorem Mark.woven (m : Mark) (stands : Bool) : Woven true (m.tokens stands) := by
  cases stands
  · exact .nil
  · exact .mark .nil

theorem Label.woven (l : Label) : Woven true l.tokens := by
  cases l with
  | name spread w optional =>
      cases spread <;> cases optional <;>
        simp only [Label.tokens, Mark.tokens, if_true, if_false, Bool.false_eq_true,
          List.nil_append, List.singleton_append]
      · exact .word .nil
      · exact .word (.mark .nil)
      · exact .word (.word .nil)
      · exact .word (.word (.mark .nil))
  | quoted l optional =>
      cases optional
      · exact .literal .nil
      · exact .literal (.mark .nil)
  | index w key => exact .enclosed .square (.word (.mark (.word .nil)))

mutual

/-- The tokens of a type are woven loosely. -/
theorem TypeExpr.woven : (t : TypeExpr) → Woven true t.tokens
  | .function params result =>
    .bracket (woven_entryTokens .comma params) (.arrow result.woven)
  | .union first rest => first.woven.loosen.append (woven_barTokens rest)

/-- The tokens of an operand are woven. -/
theorem Operand.woven : (o : Operand) → Woven false o.tokens
  | .word _ => .word .nil
  | .literal _ => .literal .nil
  | .array element => element.woven.append (.enclosed .square .nil)
  | .generic _ first rest =>
    .word (.enclosed .angle (first.woven.append (woven_argumentTokens rest)))
  | .object separator trailing entries =>
    .enclosed .curly ((woven_entryTokens separator entries).append (separator.woven trailing))
  | .paren type => .enclosed .round type.woven

/-- The tokens of a member or parameter are woven loosely. -/
theorem Entry.woven : (e : Entry) → Woven true e.tokens
  | .typed label type => label.woven.append (.mark type.woven)
  | .method _ params result =>
    .word (.bracket (woven_entryTokens .comma params) (.mark result.woven))

theorem woven_barTokens : (ms : List Operand) → Woven true (barTokens ms)
  | [] => .nil
  | m :: ms => .bar (m.woven.loosen.append (woven_barTokens ms))

theorem woven_argumentTokens : (ts : List TypeExpr) → Woven true (argumentTokens ts)
  | [] => .nil
  | t :: ts => .mark (t.woven.append (woven_argumentTokens ts))

theorem woven_entryTokens (sep : Mark) : (es : List Entry) → Woven true (entryTokens sep es)
  | [] => .nil
  | [e] => e.woven
  | e :: e' :: es => e.woven.append (.mark (woven_entryTokens sep (e' :: es)))

end

/-! ### Walks through woven tokens -/

/-- Characters that mean nothing are passed. -/
theorem Passes.plain {cs : List Char} (h : ∀ c ∈ cs, c ∉ marks) (d : Int) : Passes d cs := by
  induction cs with
  | nil => exact .nil d
  | cons c cs ih =>
      exact (Passes.char (h c List.mem_cons_self) d).append
        (ih fun x hx => h x (List.mem_cons_of_mem c hx))

theorem Passes.blanks {gap : List Char} (h : IsGap gap) (d : Int) :
    Passes d gap := .plain (fun c hc => notMem_marks_of_isBlank (h c hc)) d

theorem Passes.word (w : Word) (d : Int) : Passes d w.chars :=
  .plain (fun c hc => notMem_marks_of_isWordChar (w.plain c hc)) d

theorem Passes.mark (m : Mark) (d : Int) : Passes d [m.char] := by
  intro s hs
  have hquote : Text.isQuote m.char = false := by cases m <;> rfl
  have hdepth : Scan.depthChange s.previous m.char = 0 := by cases m <;> rfl
  have hstep := hs.step hquote
  rw [hdepth, Int.add_zero] at hstep
  rw [Scan.run_cons, hstep, Scan.run_nil]
  refine ⟨⟨fun _ => ?_, trivial⟩, rfl, rfl, ?_⟩
  · cases m <;> simp [Mark.char]
  · cases m <;> simp [Mark.char]

/-- What stands in brackets is passed when it is passed one level deeper. -/
theorem Passes.bracket {d : Int} (hd : 0 ≤ d) (k : Bracket) {cs : List Char}
    (h : Passes (d + 1) cs) : Passes d (k.opening :: (cs ++ [k.closing])) := by
  intro s hs
  have hopen : s.step k.opening = ⟨d + 1, none, k.opening⟩ := by
    have hquote : Text.isQuote k.opening = false := by cases k <;> rfl
    rw [hs.step hquote]
    cases k <;> rfl
  obtain ⟨hquiet, hrun⟩ :=
    h ⟨d + 1, none, k.opening⟩ ⟨rfl, rfl, by cases k <;> simp [Bracket.opening]⟩
  have hclose := hrun.step (c := k.closing) (by cases k <;> rfl)
  have hdepth :
      Scan.depthChange (Scan.run ⟨d + 1, none, k.opening⟩ cs).previous k.closing = -1 := by
    cases k with
    | angle => simp [Scan.depthChange, Bracket.closing, hrun.previous]
    | _ => rfl
  rw [hdepth, Int.add_neg_cancel_right] at hclose
  rw [Scan.run_cons, Scan.run_append, hopen, Scan.run_cons, hclose, Scan.run_nil]
  refine ⟨⟨fun _ => ?_, ?_⟩, rfl, rfl, by cases k <;> simp [Bracket.closing]⟩
  · cases k <;> simp [Bracket.opening]
  · rw [hopen, Scan.quiet_append]
    refine ⟨hquiet, fun htop => ?_, trivial⟩
    have := (isTop_of_settled hrun).mp htop
    omega

/-- Within brackets, a bar is passed. -/
theorem Passes.bar {d : Int} (hd : 0 < d) : Passes d ['|'] := by
  intro s hs
  have htop : ¬ s.isTop = true := fun h => by
    have := (isTop_of_settled hs).mp h
    omega
  have hstep := hs.step (c := '|') rfl
  rw [show Scan.depthChange s.previous '|' = 0 from rfl, Int.add_zero] at hstep
  rw [Scan.run_cons, hstep, Scan.run_nil]
  exact ⟨⟨fun h => absurd h htop, trivial⟩, rfl, rfl, show '|' ≠ '=' by decide⟩

/-- A walk over an arrow stays where it is. -/
theorem Scan.Settled.run_arrow {d : Int} {s : Scan} (h : s.Settled d) :
    s.step '=' = ⟨d, none, '='⟩ ∧ s.run ['=', '>'] = ⟨d, none, '>'⟩ := by
  have hfirst : s.step '=' = ⟨d, none, '='⟩ := by
    rw [h.step rfl, show Scan.depthChange s.previous '=' = 0 from rfl, Int.add_zero]
  refine ⟨hfirst, ?_⟩
  rw [run_cons, hfirst]
  simp [Scan.step, Text.isQuote, Scan.depthChange]

/-- Within brackets, an arrow is passed. -/
theorem Passes.arrow {d : Int} (hd : 0 < d) : Passes d ['=', '>'] := by
  intro s hs
  obtain ⟨hfirst, hrun⟩ := hs.run_arrow
  have hne : d ≠ 0 := by omega
  refine ⟨⟨fun h => absurd ((isTop_of_settled hs).mp h) hne, ?_, trivial⟩, ?_⟩
  · rw [hfirst]
    intro h
    rw [Scan.isTop, Option.isNone_none, Bool.true_and, decide_eq_true_eq] at h
    exact absurd h hne
  · rw [hrun]
    exact ⟨rfl, rfl, show '>' ≠ '=' by decide⟩

/-- The text of tokens is passed when the first token and the text of the others are. -/
theorem Passes.tokens {f : Literal → Literal} {t : Token} {ts : List Token} {s : List Char}
    {d : Int} (hs : Spells f (t :: ts) s) (ht : Passes d (t.chars f))
    (hrest : ∀ cs, Spells f ts cs → Passes d cs) : Passes d s := by
  obtain ⟨gap, cs, rfl, hgap, hcs⟩ := Spells.cons_iff.mp hs
  exact (Passes.blanks hgap d).append (ht.append (hrest cs hcs))

/-- A walk passes the text of woven tokens. -/
theorem Woven.passes {loose : Bool} {ts : List Token} (h : Woven loose ts)
    {f : Literal → Literal} (hcloses : ∀ l, .literal l ∈ ts → (f l).Closes) {s : List Char}
    (hs : Spells f ts s) {d : Int} (hd : 0 ≤ d) (hloose : loose = true → 0 < d) : Passes d s := by
  have htail {t : Token} {ts : List Token} (h : ∀ l, .literal l ∈ t :: ts → (f l).Closes) :
      ∀ l, .literal l ∈ ts → (f l).Closes := fun l hl => h l (List.mem_cons_of_mem t hl)
  -- Brackets are what makes the depth grow, so the induction is for all depths.
  induction h generalizing s d with
  | nil => exact .blanks (Spells.nil_iff.mp hs) d
  | word _ ih =>
      exact .tokens hs (.word _ d) fun cs hcs => ih (htail hcloses) hcs hd hloose
  | literal _ ih =>
      have hliteral := hcloses _ List.mem_cons_self
      exact .tokens hs (.literal hliteral) fun cs hcs => ih (htail hcloses) hcs hd hloose
  | mark _ ih =>
      exact .tokens hs (.mark _ d) fun cs hcs => ih (htail hcloses) hcs hd hloose
  | bracket _ _ ihInner ih =>
      obtain ⟨gap, a, b, rfl, hgap, ha, hb⟩ := hs.exists_bracket
      have hinner : Passes (d + 1) a := by
        refine ihInner (fun l hl => ?_) ha (by omega) fun _ => by omega
        exact hcloses l (List.mem_cons_of_mem _ (List.mem_append_left _ hl))
      have hrest : Passes d b := by
        refine ih (fun l hl => ?_) hb hd hloose
        exact hcloses l
          (List.mem_cons_of_mem _ (List.mem_append_right _ (List.mem_cons_of_mem _ hl)))
      exact (Passes.blanks hgap d).append ((Passes.bracket hd _ hinner).append hrest)
  | bar _ ih =>
      exact .tokens hs (.bar (hloose rfl)) fun cs hcs => ih (htail hcloses) hcs hd hloose
  | arrow _ ih =>
      exact .tokens hs (.arrow (hloose rfl)) fun cs hcs => ih (htail hcloses) hcs hd hloose

end Trellis.TypeText
