import Mathlib.Data.List.DropRight
import Mathlib.Data.List.SplitBy
import Trellis.Contract.Tag
import Trellis.Proofs.Text.Escapes
import Trellis.Proofs.Text.Words
import Trellis.Syntax.Grammar.Markup

/-! # What markup renders

The texts that a reader sees when an element is rendered.

* `Rendered` is what an element becomes: texts, elements, and parts that are known only then.
  `Rendered.text?` is the text by which a reader finds it: its own texts, one right behind the
  other, or, when it has none, the text of the one element in it that has some. Runs of blanks count
  as one space.
* `Glyph.shown` is the rule for line breaks. A text and the character references in it are trimmed
  line by line, but not at its ends; lines that are left empty fall away, the others are joined by a
  space. What a reference stands for is never trimmed.
* `Markup.rendering` is what stands in an element when it is rendered. The children of a fragment are
  those of the element around it. An expression renders the text of its literal; any other one is
  computed. The names of characters are a parameter. -/

namespace Trellis

open Syntax

/-! ### Rendered elements -/

/-- What becomes of markup. -/
inductive Rendered where
  /-- A text. -/
  | text (s : List Char)
  /-- A part that is known only when it is rendered. -/
  | computed
  /-- An element. -/
  | element (children : List Rendered)

namespace Rendered

/-- The text, if it is one. -/
def ownText? : Rendered → Option (List Char)
  | text s => some s
  | _ => none

/-- The texts among the children of an element. -/
def ownTexts (rs : List Rendered) : List (List Char) := rs.filterMap ownText?

/-- Whether a part is known only when it is rendered. -/
def isComputed : Rendered → Bool
  | computed => true
  | _ => false

/-- Whether it is an element. -/
def isElement : Rendered → Bool
  | element _ => true
  | _ => false

mutual

/-- Whether a part has a text, or may have one. -/
def bearsText : Rendered → Bool
  | text s => ! Text.Blank.isEmpty s
  | computed => true
  | element rs => anyBearsText rs

/-- Whether one of several parts has a text, or may have one. -/
def anyBearsText : List Rendered → Bool
  | [] => false
  | r :: rs => bearsText r || anyBearsText rs

end

/-- Whether an element has no text of its own. -/
def isSilent (rs : List Rendered) : Bool := (ownTexts rs).all Text.Blank.isEmpty

/-- The texts that are seen in an element with such children, when those of the elements in it are
given. -/
def choose (rs : List Rendered) (inside : List (Option (List (List Char)))) :
    Option (List (List Char)) :=
  if rs.any isComputed then none
  else if isSilent rs then
    match inside with
    | [only] => only
    | _ => none
  else some (ownTexts rs)

mutual

/-- The texts that are seen in an element. -/
def texts? : Rendered → Option (List (List Char))
  | text _ => none
  | computed => none
  | element rs => choose rs (textsInside rs)

/-- The texts that are seen in each of the elements that bear a text. -/
def textsInside : List Rendered → List (Option (List (List Char)))
  | [] => []
  | r :: rs => (if r.isElement && r.bearsText then [texts? r] else []) ++ textsInside rs

end

/-- The text by which a reader finds an element. -/
def text? (r : Rendered) : Option String :=
  (texts? r).map fun ss => Text.collapse (String.ofList ss.flatten)

end Rendered

/-! ### Texts among markup -/

/-- A character of a text among markup. -/
inductive Glyph where
  /-- One that stands in the source. -/
  | written (c : Char)
  /-- One that a reference stands for. -/
  | meant (c : Char)
  deriving DecidableEq

namespace Glyph

/-- The character. -/
def char : Glyph → Char
  | written c => c
  | meant c => c

/-- Whether it ends a line. -/
def isBreak : Glyph → Bool
  | written c => c = '\n' || c = '\r'
  | meant _ => false

/-- Whether it falls away at the end of a line. -/
def isSpace : Glyph → Bool
  | written c => Grammar.isTextBlank c
  | meant _ => false

/-- The lines after the first one, and what is left of them. -/
def trimLater : List (List Glyph) → List (List Glyph)
  | [] => []
  | [l] => [l.dropWhile isSpace]
  | l :: ls => (l.dropWhile isSpace).rdropWhile isSpace :: trimLater ls

/-- What is left of some lines. -/
def trimLines : List (List Glyph) → List (List Glyph)
  | [] => []
  | [l] => [l]
  | l :: ls => l.rdropWhile isSpace :: trimLater ls

/-- The text that is rendered. -/
def shown (gs : List Glyph) : List Char :=
  Text.Blank.joined (((trimLines (gs.splitOnP isBreak)).map (·.map char)).filter (· ≠ []))

end Glyph

/-! ### Children of an element -/

/-- What a child of an element is for its rendering. -/
inductive Child where
  /-- A text. -/
  | written (s : List Char)
  /-- A character reference, with its line and the text that it stands for. -/
  | reference (line : Nat) (s : List Char)
  /-- What does not belong to a text. -/
  | rendered (rs : List Rendered)

namespace Child

/-- Whether two children that stand side by side are parts of one text. A text alone is read to its
end. -/
def joins : Child → Child → Bool
  | written _, reference _ _ => true
  | reference _ _, written _ => true
  | reference _ _, reference _ _ => true
  | _, _ => false

/-- What stands behind a reference, in front of the next child. Blanks with a line break between two
references are no part of the tree, but then the references stand on different lines. -/
def gapBehind (line : Nat) : List Child → List Glyph
  | reference line' _ :: _ => if line = line' then [] else [.written '\n']
  | _ => []

/-- The characters of some parts of a text. -/
def glyphs : List Child → List Glyph
  | [] => []
  | written s :: cs => s.map Glyph.written ++ glyphs cs
  | reference line s :: cs => s.map Glyph.meant ++ gapBehind line cs ++ glyphs cs
  | rendered _ :: cs => glyphs cs

/-- What becomes of children that belong together. -/
def render : List Child → List Rendered
  | [rendered rs] => rs
  | cs => [.text (Glyph.shown (glyphs cs))]

/-- What becomes of the children of an element. -/
def renderAll (cs : List Child) : List Rendered := (cs.splitBy joins).flatMap render

/-- What does not belong to a text. -/
def others : Child → List Rendered
  | rendered rs => rs
  | _ => []

end Child

namespace Reference

/-- Some names of characters; any other name is left as it is written. -/
def common (name : String) : List Char :=
  match name with
  | "amp" => ['&']
  | "lt" => ['<']
  | "gt" => ['>']
  | "quot" => ['"']
  | "nbsp" => ['\u00A0']
  | _ => '&' :: name.toList ++ [';']

/-- The text that a character reference stands for. -/
def decoded (named : String → List Char) (s : List Char) : List Char :=
  match s with
  | '&' :: '#' :: c :: digits =>
    if c = 'x' || c = 'X' then [Text.Escape.charOf (Text.Escape.numeral 16 digits.dropLast)]
    else [Text.Escape.charOf (Text.Escape.numeral 10 (c :: digits).dropLast)]
  | '&' :: name => named (String.ofList name.dropLast)
  | _ => s

end Reference

namespace Markup

/-- The content of the literal that a tree is, unless there are expressions in it. -/
def literal? (t : Tree) : Option (List Char) :=
  if t.kind = .string || (t.kind = .templateString && !AttributeValue.isComputed t)
  then some (Text.stripQuotes t.text).toList else none

/-- What becomes of an expression. -/
def renderExpression (t : Tree) : List Rendered :=
  match t.content? with
  | none => []
  | some inner => (literal? inner).elim [.computed] fun s => [.text (Text.Escape.decoded s)]

mutual

/-- What a tree is for the rendering of the element around it. -/
def childOf (named : String → List Char) : Tree → Child
  | .node k l s n ts =>
    if k = .markupText then .written s.toList
    else if k = .characterReference then .reference n (Reference.decoded named s.toList)
    else if k = .markupExpression then .rendered (renderExpression (.node k l s n ts))
    else if k = .selfClosingElement then .rendered [.element []]
    else if k = .element then
      let inside := Child.renderAll (childrenOf named ts)
      .rendered (if (Enclosure.tagName? (.node k l s n ts)).isSome then [.element inside] else inside)
    else .rendered []

/-- What several trees are for the rendering of the element around them. -/
def childrenOf (named : String → List Char) : List Tree → List Child
  | [] => []
  | t :: ts => childOf named t :: childrenOf named ts

end

/-- What stands in an element when it is rendered. -/
def rendering (named : String → List Char) (t : Tree) : List Rendered :=
  Child.renderAll (childrenOf named t.children)

/-- The text by which a reader finds an element. -/
def shownText? (named : String → List Char) (t : Tree) : Option String :=
  (Rendered.element (rendering named t)).text?

end Markup

/-! ### Words of a text among markup -/

namespace Glyph

open Text.Blank

theorem isBlank_of_isSpace {g : Glyph} (h : g.isSpace = true) : Text.isBlank g.char = true := by
  cases g with
  | meant c => cases h
  | written c =>
      rw [isSpace, Grammar.isTextBlank, Bool.or_eq_true, Bool.and_eq_true, decide_eq_true_eq,
        decide_eq_true_eq, decide_eq_true_eq] at h
      rw [char, Text.isBlank]
      rcases h with rfl | ⟨hlow, hhigh⟩
      · rfl
      · have hlow : 9 ≤ c.toNat := hlow
        have hhigh : c.toNat ≤ 13 := hhigh
        simp [hlow, hhigh]

theorem isBlank_of_isBreak {g : Glyph} (h : g.isBreak = true) : Text.isBlank g.char = true := by
  cases g with
  | meant c => cases h
  | written c =>
      rw [isBreak, Bool.or_eq_true, decide_eq_true_eq, decide_eq_true_eq] at h
      rcases h with rfl | rfl <;> rfl

theorem isGap_map {gs : List Glyph} (h : ∀ g ∈ gs, g.isSpace = true) : IsGap (gs.map char) := by
  intro c hc
  obtain ⟨g, hg, rfl⟩ := List.mem_map.mp hc
  exact isBlank_of_isSpace (h g hg)

theorem words_dropWhile (l : List Glyph) :
    words ((l.dropWhile isSpace).map char) = words (l.map char) := by
  have hgap := isGap_map fun g hg => List.mem_takeWhile_imp hg (p := isSpace) (l := l)
  conv_rhs => rw [← List.takeWhile_append_dropWhile (p := isSpace) (l := l), List.map_append,
    words_gap_append hgap]

theorem words_rdropWhile (l : List Glyph) :
    words ((l.rdropWhile isSpace).map char) = words (l.map char) := by
  have hgap := isGap_map fun g hg => List.mem_rtakeWhile_imp hg (p := isSpace) (l := l)
  conv_rhs => rw [← List.rdropWhile_append_rtakeWhile (p := isSpace) (l := l), List.map_append,
    words_append_gap hgap]

theorem words_trimLater (ls : List (List Glyph)) :
    (trimLater ls).flatMap (fun l => words (l.map char)) =
      ls.flatMap fun l => words (l.map char) := by
  fun_induction trimLater ls with
  | case1 => rfl
  | case2 l => rw [List.flatMap_singleton, List.flatMap_singleton, words_dropWhile]
  | case3 l ls _ ih =>
      rw [List.flatMap_cons, List.flatMap_cons, words_rdropWhile, words_dropWhile, ih]

theorem words_trimLines (ls : List (List Glyph)) :
    (trimLines ls).flatMap (fun l => words (l.map char)) =
      ls.flatMap fun l => words (l.map char) := by
  fun_cases trimLines ls with
  | case1 => rfl
  | case2 l => rfl
  | case3 l ls => rw [List.flatMap_cons, List.flatMap_cons, words_rdropWhile, words_trimLater]

/-- The words of some lines, `before` standing in front of the first one. -/
theorem words_lines_append (before gs : List Glyph) :
    ((gs.splitOnP isBreak).modifyHead (before ++ ·)).flatMap (fun l => words (l.map char)) =
      words ((before ++ gs).map char) := by
  induction gs generalizing before with
  | nil => rw [List.splitOnP_nil, List.modifyHead_cons, List.flatMap_singleton]
  | cons g gs ih =>
      rw [List.splitOnP_cons_eq_if_modifyHead]
      split
      · next hg =>
        have hrest := ih []
        rw [show (fun x : List Glyph => [] ++ x) = id from rfl, List.modifyHead_id, id_eq,
          List.nil_append] at hrest
        rw [List.modifyHead_cons, List.flatMap_cons, hrest, List.append_nil, List.map_append,
          List.map_cons]
        exact (wordsFrom_append_blank (isBlank_of_isBreak hg) [] _ _).symm
      · rw [List.modifyHead_modifyHead, List.append_cons, ← ih (before ++ [g])]
        congr 2
        funext x
        rw [Function.comp_apply, List.append_assoc, List.singleton_append]

theorem words_lines (gs : List Glyph) :
    (gs.splitOnP isBreak).flatMap (fun l => words (l.map char)) = words (gs.map char) := by
  have := words_lines_append [] gs
  rwa [show (fun x : List Glyph => [] ++ x) = id from rfl, List.modifyHead_id] at this

/-- The rule for line breaks keeps all words. -/
theorem words_shown (gs : List Glyph) : words (shown gs) = words (gs.map char) := by
  have hfilter (ss : List (List Char)) : (ss.filter (· ≠ [])).flatMap words = ss.flatMap words := by
    induction ss with
    | nil => rfl
    | cons s ss ih =>
        rw [List.filter_cons]
        split
        · rw [List.flatMap_cons, List.flatMap_cons, ih]
        · next hs =>
          have hs : s = [] := by simpa using hs
          rw [List.flatMap_cons, ih, hs, words_nil, List.nil_append]
  rw [shown, words_joined_eq, hfilter, List.flatMap_map, words_trimLines, words_lines]

end Glyph

end Trellis
