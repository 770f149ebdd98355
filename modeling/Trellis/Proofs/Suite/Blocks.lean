import Trellis.Proofs.Placement.Marker
import Trellis.Proofs.Suite.Scenarios

/-! # The text of the tests

A module as text: its head, and the groups of its components, each the blocks of its tests with one
blank line between them.

* `Layout.Writes` says that some items are written as the same characters wherever they stand. A
  closing line takes back a gap right before it and nothing else, so items in which every closing
  line follows a line that is not blank are written alike everywhere.
* `TestCase.writes_layout`: a test is such a list of items; its block depends on nothing but the
  test.
* `Suite.isStructured`: the text of a module, and which tests it has. -/

namespace Trellis

/-! ### Ends of texts -/

namespace Text

/-- Whether the last character of a text is another than a line break. -/
def EndsInk (t : String) : Prop := ∃ c, t.toList.getLast? = some c ∧ c ≠ '\n'

theorem EndsInk.append (a : String) {b : String} (h : EndsInk b) : EndsInk (a ++ b) := by
  obtain ⟨c, hc, hne⟩ := h
  refine ⟨c, ?_, hne⟩
  rw [String.toList_append, List.getLast?_append, hc]
  rfl

theorem EndsInk.of_semicolon {b : String} (h : b.toList.getLast? = some ';') : EndsInk b :=
  ⟨';', h, by decide⟩

end Text

/-! ### Items that are written alike everywhere -/

namespace Layout

/-- Whether some items are written as the same characters after every text. -/
def Writes (items : List Layout) (chars : List Char) : Prop :=
  ∀ rev, items.foldl put rev = chars.reverse ++ rev

section writes
variable {a b : List Layout} {x y : List Char} {depth : Nat} {t : String}

theorem Writes.render_eq (h : Writes a x) : render a = x := by
  have hrev : renderRev a = x.reverse := (h []).trans (List.append_nil _)
  rw [render, hrev, List.reverse_reverse]

theorem writes_nil : Writes [] [] := fun _ => rfl

theorem Writes.append (ha : Writes a x) (hb : Writes b y) : Writes (a ++ b) (x ++ y) := by
  intro rev
  rw [List.foldl_append, ha, hb, List.reverse_append, List.append_assoc]

theorem writes_line (depth : Nat) (t : String) : Writes [.line depth t] (lineChars depth t) :=
  fun _ => rfl

theorem Writes.flatMap {α : Type} {f : α → List Layout} {g : α → List Char} (xs : List α)
    (h : ∀ x ∈ xs, Writes (f x) (g x)) : Writes (xs.flatMap f) (xs.flatMap g) := by
  induction xs with
  | nil => exact writes_nil
  | cons x xs ih =>
      rw [List.flatMap_cons, List.flatMap_cons]
      exact (h x List.mem_cons_self).append (ih fun x hx => h x (List.mem_cons_of_mem _ hx))

theorem writes_lines {α : Type} (depth : Nat) (f : α → String) (xs : List α) :
    Writes (xs.map fun x => .line depth (f x)) (xs.flatMap fun x => lineChars depth (f x)) := by
  rw [List.map_eq_flatMap]
  exact .flatMap _ fun x _ => writes_line depth (f x)

/-- A line that is not blank ends a text. -/
theorem endsLine_lineChars (x : List Char) (depth : Nat) (h : Text.EndsInk t) :
    EndsLine (x ++ lineChars depth t).reverse := by
  obtain ⟨c, hc, hne⟩ := h
  obtain ⟨init, hinit⟩ := List.getLast?_eq_some_iff.mp hc
  refine ⟨c, (x ++ indent depth ++ init).reverse, ?_, hne⟩
  have hsome : t.toList.isEmpty = false := by rw [hinit]; simp
  rw [lineChars, hsome, if_neg Bool.false_ne_true, hinit]
  simp

theorem EndsLine.append_left (x : List Char) (h : EndsLine y.reverse) :
    EndsLine (x ++ y).reverse := by
  obtain ⟨c, rest, hrev, hne⟩ := h
  exact ⟨c, rest ++ x.reverse, by rw [List.reverse_append, hrev]; rfl, hne⟩

/-- Lines of which the last is not blank end a text. -/
theorem endsLine_lines {α : Type} (x : List Char) (depth : Nat) (f : α → String) {xs : List α}
    {last : α} (hlast : xs.getLast? = some last) (h : Text.EndsInk (f last)) :
    EndsLine (x ++ xs.flatMap fun x => lineChars depth (f x)).reverse := by
  obtain ⟨init, rfl⟩ := List.getLast?_eq_some_iff.mp hlast
  rw [List.flatMap_append, List.flatMap_singleton, ← List.append_assoc]
  exact endsLine_lineChars _ depth h

/-- After a line that is not blank, a closing line takes nothing back. -/
theorem Writes.closing (ha : Writes a x) (hx : EndsLine x.reverse) (depth : Nat) (t : String) :
    Writes (a ++ [.closing depth t]) (x ++ lineChars depth t) := by
  intro rev
  obtain ⟨c, rest, hrev, hne⟩ := hx
  rw [List.foldl_append, ha, List.reverse_append, List.append_assoc, hrev]
  rw [List.foldl_cons, List.foldl_nil, put, List.cons_append, List.cons_append, dropGap]
  simp [hne]

/-- After a line that is not blank, a gap is a blank line. -/
theorem Writes.gap (ha : Writes a x) (hx : EndsLine x.reverse) :
    Writes (a ++ [.gap]) (x ++ ['\n']) := by
  intro rev
  obtain ⟨c, rest, hrev, hne⟩ := hx
  rw [List.foldl_append, ha, List.reverse_append, hrev]
  simp [put, addGap, hne]

/-- A closing line takes back a gap. -/
theorem Writes.gap_closing (ha : Writes a x) (hx : EndsLine x.reverse) (depth : Nat) (t : String) :
    Writes (a ++ [.gap] ++ [.closing depth t]) (x ++ lineChars depth t) := by
  intro rev
  have hgap := ha.gap hx rev
  obtain ⟨c, rest, hrev, hne⟩ := hx
  rw [List.foldl_append, hgap, List.reverse_append, List.reverse_append, hrev]
  simp [put, dropGap]

end writes

/-- A text that ends in a line that is not blank is finished by taking the blank line after it
off. -/
theorem finish_concat {x : List Char} (h : EndsLine x.reverse) : finish (x ++ ['\n']) = x := by
  obtain ⟨c, rest, hrev, hne⟩ := h
  have hdone : finishRev ('\n' :: c :: rest) = '\n' :: c :: rest := by
    rw [finishRev]
    intro _ heq
    exact hne (List.cons.inj (List.cons.inj heq).2).1
  rw [finish, List.reverse_append, hrev, List.reverse_singleton, List.singleton_append, finishRev,
    hdone, ← hrev, List.reverse_reverse]

/-- Texts with a separator after each but the last. -/
theorem intercalate_concat (sep : List Char) (xs : List (List Char)) (x : List Char) :
    sep.intercalate (xs ++ [x]) = xs.flatMap (· ++ sep) ++ x := by
  induction xs with
  | nil => simp
  | cons y ys ih =>
      cases ys with
      | nil => simp
      | cons z zs =>
          rw [List.cons_append, List.cons_append, List.intercalate_cons_cons, ← List.cons_append, ih]
          simp

end Layout

/-! ### Blocks -/

/-- The block of a test: its opening line, its statements and its closing line. -/
def TestCase.block (t : TestCase) : List Char :=
  Layout.lineChars 1 t.opening ++ t.body.flatMap (Layout.lineChars 2) ++
    Layout.lineChars 1 "\x7d);"

namespace Suite

/-- Whether a test ends in a statement that is not blank. -/
def EndsStatement (t : TestCase) : Prop :=
  ∃ line, t.body.getLast? = some line ∧ Text.EndsInk line

section statements
variable {s : Settings} {pass : Pass} {c : Component} {t : TestCase}

theorem endsInk_expectPresent (x : String) : Text.EndsInk (expectPresent x) :=
  .append _ (.of_semicolon (by decide))

theorem endsInk_expectCalled (name : String) : Text.EndsInk (expectCalled name) :=
  .append _ (.of_semicolon (by decide))

theorem endsInk_inputUse (kind : InputKind) (target : String) :
    Text.EndsInk (inputUse kind target).2.2 := by
  cases kind with
  | text => exact .append _ (.of_semicolon (by decide))
  | number => exact .of_semicolon (b := "expect(field).toHaveValue(42);") (by decide)
  | checkbox => exact .of_semicolon (b := "expect(field).toBeChecked();") (by decide)
  | radio => exact .of_semicolon (b := "expect(field).toBeChecked();") (by decide)
  | select => exact endsInk_expectPresent _

theorem endsInk_inputCheck (e : InteractiveElement) {effect : String} (h : Text.EndsInk effect) :
    Text.EndsInk (inputCheck e effect) := by
  unfold inputCheck
  split
  · exact endsInk_expectCalled _
  · split
    · exact endsInk_expectPresent _
    · exact h

/-- Every test of a component ends in a statement that is not blank. -/
theorem IsCase.endsStatement (h : IsCase s pass c t) : EndsStatement t := by
  cases h with
  | crash => exact ⟨_, rfl, .append _ (.of_semicolon (by decide))⟩
  | defaults => exact ⟨_, rfl, endsInk_expectPresent _⟩
  | presence => exact ⟨_, rfl, endsInk_expectPresent _⟩
  | conditional => exact ⟨_, rfl, endsInk_expectPresent _⟩
  | variant => exact ⟨_, rfl, endsInk_expectPresent _⟩
  | click =>
      unfold clickCase
      dsimp only
      split
      · exact ⟨_, rfl, endsInk_expectCalled _⟩
      · exact ⟨_, rfl, endsInk_expectPresent _⟩
  | input => exact ⟨_, rfl, endsInk_inputCheck _ (endsInk_inputUse _ _)⟩
  | snapshot => exact ⟨"expect(asFragment()).toMatchSnapshot();", rfl, .of_semicolon (by decide)⟩

/-- A block ends in its closing line. -/
theorem endsLine_block (t : TestCase) : Layout.EndsLine t.block.reverse :=
  Layout.endsLine_lineChars _ 1 (.of_semicolon (by decide))

/-- A test without the gap after it is written as its block. -/
theorem writes_block (h : EndsStatement t) :
    Layout.Writes (.line 1 t.opening :: t.body.map (.line 2) ++ [.closing 1 "\x7d);"]) t.block := by
  obtain ⟨line, hlast, hline⟩ := h
  have hwrites : Layout.Writes (.line 1 t.opening :: t.body.map (.line 2))
      (Layout.lineChars 1 t.opening ++ t.body.flatMap (Layout.lineChars 2)) :=
    (Layout.writes_line 1 t.opening).append (Layout.writes_lines 2 id t.body)
  exact hwrites.closing (Layout.endsLine_lines _ 2 id hlast hline) 1 _

/-- A test is written as its block and a blank line. -/
theorem writes_layout (h : EndsStatement t) : Layout.Writes t.layout (t.block ++ ['\n']) := by
  have hgap := (writes_block h).gap (endsLine_block t)
  rw [List.append_assoc] at hgap
  exact hgap

end statements

/-! ### Groups -/

/-- What stands in a group before its tests. -/
def Group.opening (s : Settings) (typed : Bool) (g : Group) : List Layout :=
  .line 0 ("describe(" ++ Text.literal g.component.name ++ ", () => \x7b") ::
    defaultsLayout typed g ++ [.gap] ++
    helperLayout typed (s.wrapper.map Prod.snd) g.component ++ [.gap] ++
    (if g.hasStubs then resetLayout s.framework ++ [.gap] else [])

/-- The text of a group: what stands before its tests, the blocks of the tests with a blank line
between them, and the closing line. -/
def groupText (s : Settings) (typed : Bool) (pass : Pass) (c : Component) : List Char :=
  Layout.render ((Group.ofComponent s pass c).opening s typed) ++
    ['\n'].intercalate ((testCases s pass c).map TestCase.block) ++
    Layout.lineChars 0 "\x7d);"

/-- A default prop as an entry of an object. -/
def entryOf (d : ComponentProp × String) : String := propKey d.1.name ++ ": " ++ d.2

/-- The text of the object of default props with some entries. -/
def objectText (typed : Bool) (c : Component) (entries : List String) : List Char :=
  let assertion := if typed then " as " ++ propsType c else ""
  if entries.isEmpty then
    Layout.lineChars 1 ("const defaultProps = \x7b\x7d" ++ assertion ++ ";")
  else
    Layout.lineChars 1 "const defaultProps = \x7b" ++
      entries.flatMap (fun x => Layout.lineChars 2 (x ++ ",")) ++
      Layout.lineChars 1 ("\x7d" ++ assertion ++ ";")

/-- The text of the helper that renders a component. -/
def helperText (typed : Bool) (wrapper : Option String) (c : Component) : List Char :=
  Layout.lineChars 1 ("const " ++ renderHelper c ++ " = (" ++ overridesParameter typed c ++ ") =>") ++
    Layout.lineChars 2 (renderStatement wrapper c)

section groups
variable {s : Settings} {typed : Bool}

/-- The object of default props is written with a line for each entry. -/
theorem writes_defaultsLayout (typed : Bool) (g : Group) :
    Layout.Writes (defaultsLayout typed g) (objectText typed g.component (g.defaults.map entryOf)) ∧
      Layout.EndsLine (objectText typed g.component (g.defaults.map entryOf)).reverse := by
  unfold defaultsLayout objectText
  rw [List.isEmpty_map]
  dsimp only
  split
  · exact ⟨Layout.writes_line _ _,
      Layout.endsLine_lineChars [] 1 (.append _ (.of_semicolon (by decide)))⟩
  · rename_i hne
    obtain ⟨last, hlast⟩ := Option.isSome_iff_exists.mp
      (List.getLast?_isSome.mpr fun hnil => hne (List.isEmpty_iff.mpr hnil))
    have hwrites := (Layout.writes_line 1 "const defaultProps = \x7b").append
      (Layout.writes_lines 2 (fun d => entryOf d ++ ",") g.defaults)
    have hends := Layout.endsLine_lines (Layout.lineChars 1 "const defaultProps = \x7b") 2
      (fun d : ComponentProp × String => entryOf d ++ ",") hlast
      (.append _ ⟨',', by decide, by decide⟩)
    rw [List.flatMap_map]
    exact ⟨hwrites.closing hends 1 _,
      Layout.endsLine_lineChars _ 1 (.append _ (.of_semicolon (by decide)))⟩

theorem endsInk_renderStatement (wrapper : Option String) (c : Component) :
    Text.EndsInk (renderStatement wrapper c) := by
  unfold renderStatement
  split
  · exact .append _ (.of_semicolon (by decide))
  · exact .append _ (.of_semicolon (by decide))

theorem writes_helperLayout (typed : Bool) (wrapper : Option String) (c : Component) :
    Layout.Writes (helperLayout typed wrapper c) (helperText typed wrapper c) ∧
      Layout.EndsLine (helperText typed wrapper c).reverse :=
  ⟨(Layout.writes_line 1 _).append (Layout.writes_line 2 (renderStatement wrapper c)),
    Layout.endsLine_lineChars _ 2 (endsInk_renderStatement wrapper c)⟩

theorem writes_resetLayout (f : Framework) :
    ∃ x, Layout.Writes (resetLayout f ++ [.gap]) x := by
  have hclear : Text.EndsInk f.clearMocks := .append _ (.of_semicolon (by decide))
  have hlines := (Layout.writes_line 1 "beforeEach(() => \x7b").append
    (Layout.writes_line 2 f.clearMocks)
  have hclosing := hlines.closing (Layout.endsLine_lineChars _ 2 hclear) 1 "\x7d);"
  exact ⟨_, hclosing.gap (Layout.endsLine_lineChars _ 1 (.of_semicolon (by decide)))⟩

/-- What stands before the tests: the opening line, the object of default props, the helper, and
what else a group may need. -/
theorem exists_writes_opening (s : Settings) (typed : Bool) (g : Group) : ∃ rest,
    Layout.Writes (g.opening s typed)
      (Layout.lineChars 0 ("describe(" ++ Text.literal g.component.name ++ ", () => \x7b") ++
        objectText typed g.component (g.defaults.map entryOf) ++ ['\n'] ++
        helperText typed (s.wrapper.map Prod.snd) g.component ++ ['\n'] ++ rest) := by
  obtain ⟨hdefaults, hx⟩ := writes_defaultsLayout typed g
  obtain ⟨hhelper, hy⟩ := writes_helperLayout typed (s.wrapper.map Prod.snd) g.component
  obtain ⟨z, hreset⟩ := writes_resetLayout s.framework
  have hdescribe := Layout.writes_line 0
    ("describe(" ++ Text.literal g.component.name ++ ", () => \x7b")
  have hprops := (hdescribe.append hdefaults).gap (hx.append_left _)
  have hrender := (hprops.append hhelper).gap (hy.append_left _)
  unfold Group.opening
  split
  · exact ⟨_, hrender.append hreset⟩
  · exact ⟨_, hrender.append Layout.writes_nil⟩

/-- What stands before the tests is written alike everywhere. -/
theorem writes_opening (s : Settings) (typed : Bool) (g : Group) :
    Layout.Writes (g.opening s typed) (Layout.render (g.opening s typed)) := by
  obtain ⟨rest, hwrites⟩ := exists_writes_opening s typed g
  rw [hwrites.render_eq]
  exact hwrites

/-- A group is written as its text. -/
theorem writes_group (s : Settings) (typed : Bool) (pass : Pass) (c : Component) :
    Layout.Writes ((Group.ofComponent s pass c).layout s typed) (groupText s typed pass c) := by
  have hends (t : TestCase) (h : t ∈ testCases s pass c) : EndsStatement t :=
    (isCase_of_mem h).endsStatement
  -- The last test is the snapshot; the gap after it is taken back.
  obtain ⟨init, hinit⟩ : ∃ init, testCases s pass c = init ++ [snapshotCase c] := ⟨_, rfl⟩
  have hblocks := (writes_opening s typed (Group.ofComponent s pass c)).append
    (Layout.Writes.flatMap init fun t ht =>
      writes_layout (hends t (hinit ▸ List.mem_append_left _ ht)))
  have hlast := hblocks.append (writes_block (hends (snapshotCase c) (hinit ▸ by simp)))
  have hgroup := hlast.gap_closing ((endsLine_block _).append_left _) 0 "\x7d);"
  have hitems : (Group.ofComponent s pass c).layout s typed =
      (Group.ofComponent s pass c).opening s typed ++ (testCases s pass c).flatMap TestCase.layout ++
        [.closing 0 "\x7d);"] := rfl
  rw [hitems, groupText, hinit, List.flatMap_append, List.flatMap_singleton, List.map_append,
    List.map_singleton, Layout.intercalate_concat, List.flatMap_map]
  simp only [TestCase.layout, List.append_assoc, List.cons_append] at hgroup ⊢
  exact hgroup

theorem endsLine_groupText (s : Settings) (typed : Bool) (pass : Pass) (c : Component) :
    Layout.EndsLine (groupText s typed pass c).reverse :=
  Layout.endsLine_lineChars _ 0 (.of_semicolon (by decide))

end groups

/-! ### Modules -/

section modules
variable {s : Settings} {target : Target} {pass : Pass} {cs : List Component}

/-- The text of the header and the imports. -/
def headText (s : Settings) (target : Target) (pass : Pass) (cs : List Component)
    (gs : List Group) : List Char :=
  Layout.lineChars 0 header ++ Layout.lineChars 0 (sourceLine target pass) ++ ['\n'] ++
    (imports s target cs gs).flatMap (Layout.lineChars 0)

/-- The head of a module is its text without the blank line after it. -/
theorem writes_headLayout (s : Settings) (target : Target) (pass : Pass) (cs : List Component)
    (gs : List Group) : Layout.EndsLine (headText s target pass cs gs).reverse ∧
      Layout.Writes (headLayout s target pass cs gs) (headText s target pass cs gs ++ ['\n']) := by
  have hsource : Text.EndsInk (sourceLine target pass) :=
    .append _ ⟨')', by decide, by decide⟩
  have hlast : (imports s target cs gs).getLast? = some (componentImport cs target.importPath) := by
    rw [imports, List.getLast?_concat]
  have hmarked := ((Layout.writes_line 0 header).append
    (Layout.writes_line 0 (sourceLine target pass))).gap (Layout.endsLine_lineChars _ 0 hsource)
  have hends (x : List Char) := Layout.endsLine_lines x 0 id hlast
    (.append _ (.of_semicolon (by decide)))
  exact ⟨hends _, (hmarked.append (Layout.writes_lines 0 id _)).gap (hends _)⟩

theorem finish_headLayout (s : Settings) (target : Target) (pass : Pass) (cs : List Component)
    (gs : List Group) : Layout.finish (Layout.render (headLayout s target pass cs gs)) =
      headText s target pass cs gs := by
  obtain ⟨hx, hhead⟩ := writes_headLayout s target pass cs gs
  rw [hhead.render_eq, Layout.finish_concat hx]

/-- Groups with a blank line after each are groups with a blank line before each. -/
theorem flatMap_groups (g : Component → List Char) (cs : List Component) :
    ['\n'] ++ cs.flatMap (fun c => g c ++ ['\n']) = cs.flatMap (fun c => '\n' :: g c) ++ ['\n'] := by
  induction cs with
  | nil => rfl
  | cons c cs ih =>
      rw [List.flatMap_cons, List.flatMap_cons, List.append_assoc, ih]
      simp

/-- A module is its head, and after a blank line each the groups of its components. -/
theorem text_eq_groups (s : Settings) (target : Target) (pass : Pass) (cs : List Component) :
    (text s target pass cs).toList =
      Layout.finish (Layout.render (headLayout s target pass cs
        (cs.map (Group.ofComponent s pass)))) ++
      cs.flatMap fun c => '\n' :: groupText s target.typed pass c := by
  obtain ⟨hx, hhead⟩ := writes_headLayout s target pass cs (cs.map (Group.ofComponent s pass))
  generalize headText s target pass cs (cs.map (Group.ofComponent s pass)) = x at hx hhead
  have hbody : Layout.Writes (bodyLayout s target.typed (cs.map (Group.ofComponent s pass)))
      (cs.flatMap fun c => groupText s target.typed pass c ++ ['\n']) := by
    rw [bodyLayout, List.flatMap_map]
    exact .flatMap _ fun c _ => (writes_group s target.typed pass c).gap (endsLine_groupText ..)
  have hends : Layout.EndsLine
      (x ++ cs.flatMap fun c => '\n' :: groupText s target.typed pass c).reverse := by
    rcases List.eq_nil_or_concat cs with rfl | ⟨init, last, rfl⟩
    · simpa using hx
    · rw [List.concat_eq_append, List.flatMap_append, List.flatMap_singleton, ← List.append_assoc]
      exact ((endsLine_groupText ..).append_left ['\n']).append_left _
  rw [text, String.toList_ofList, hhead.render_eq, hbody.render_eq, Layout.finish_concat hx,
    List.append_assoc, flatMap_groups, ← List.append_assoc, Layout.finish_concat hends]

/-- How a module is made up of the blocks of its tests. -/
structure IsStructured (s : Settings) (target : Target) (cs : List Component) : Prop where
  /-- In either pass a module is its head and a group for each component; a group is what stands
  before its tests, the blocks of the tests, and the closing line. -/
  text_eq : ∀ pass, (text s target pass cs).toList =
    Layout.finish (Layout.render (headLayout s target pass cs
      (cs.map (Group.ofComponent s pass)))) ++
    cs.flatMap fun c => '\n' ::
      (Layout.render ((Group.ofComponent s pass c).opening s target.typed) ++
        ['\n'].intercalate ((testCases s pass c).map TestCase.block) ++
        Layout.lineChars 0 "\x7d);")
  /-- The tests of each component stand in one order. The tests of the minimal pass are those of the
  enriched pass without the groups in the middle. -/
  scenarios : ∀ c ∈ cs, ∃ presence conditional variants interactions,
    IsScenarios s c presence conditional variants interactions ∧
    testCases s .minimal c = [crashCase c, defaultsCase c] ++ presence ++ [snapshotCase c] ∧
    testCases s .enriched c =
      [crashCase c, defaultsCase c] ++ presence ++ (conditional ++ variants ++ interactions) ++
        [snapshotCase c]
  /-- Components that come out of an analysis have no interactive elements but buttons and
  inputs. -/
  isInteractive : ∀ modules source, cs = Analysis.components modules source →
    ∀ c ∈ cs, ∀ e ∈ c.interactive, e.kind.isInteractive = true

/-- Every module is made up of the blocks of its tests. -/
theorem isStructured (s : Settings) (target : Target) (cs : List Component) :
    IsStructured s target cs where
  text_eq pass := text_eq_groups s target pass cs
  scenarios c _ := exists_scenarios s c
  isInteractive := by
    rintro modules source rfl c hc
    exact Analysis.isInteractive_of_mem hc

end modules

namespace Eclipsed

/-- The selector of both elements. -/
def selector : Selector := ⟨.testId, "go", none⟩

/-- A component with a button, and before it an element that is neither a button nor an input. -/
def component : Component :=
  { name := "A"
    exportKind := .named
    exportedAs := "A"
    props := []
    interactive :=
      [⟨.other none, "div", selector, [], false, false, 1⟩,
        ⟨.button, "button", selector, [], false, false, 1⟩]
    conditional := []
    markupCount := 1
    line := 1 }

end Eclipsed

/-- An enabled button has no interaction test if an element that is neither a button nor an input
stands before it with the same selector. -/
theorem eclipsed_button :
    (∃ e ∈ Eclipsed.component.interactive, e.kind = .button ∧ e.disabled = false) ∧
      ∃ s : Settings, ∀ t ∈ testCases s .enriched Eclipsed.component, t.scenario ≠ .interaction :=
  ⟨by decide, ⟨.jest, true, 3, 3, "@testing-library/react", "@testing-library/user-event", none⟩,
    by decide⟩

end Suite

end Trellis
