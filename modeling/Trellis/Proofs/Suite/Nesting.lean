import Mathlib.Data.List.Chain
import Trellis.Suite.Layout

/-! # Nested lines

What is written item by item, seen as lines.

* A line may open a block, by ending in a brace, or begin an arrow function, by ending in an arrow; its
  body is the next line. A line that begins with a closing brace closes a block. `Layout.Nesting` is what
  is open between two lines, and `Layout.Nesting.after` what is open after one more, which has to be
  indented by two spaces for each block or body that is open at it.
* `Layout.IsNested` says of lines that they are nested like that, with no two blank lines after each other
  and no blank line before a closing line.
* `Layout.Leads` says what an item does to what is open. `Layout.IsNested.add` is the step: an item that
  leads from one nesting to another keeps lines nested when it is written after them.
  `Layout.isNested_written` is the run.
* `Layout.Plain`, `Layout.Opening`, `Layout.Closing` and `Layout.Arrow` say what the text of a line does,
  by its first and last characters. -/

namespace Trellis

namespace Layout

/-! ### Lines -/

/-- The text of some lines. -/
def ofLines (ls : List (List Char)) : List Char := ls.flatMap (· ++ ['\n'])

/-- What stands on a line after its indentation. -/
def ink (l : List Char) : List Char := l.dropWhile (· = ' ')

/-- With how many spaces a line begins. -/
def indentation (l : List Char) : Nat := (l.takeWhile (· = ' ')).length

/-- Whether nothing stands on a line. -/
def isBlank (l : List Char) : Bool := (ink l).isEmpty

/-- Whether a line closes a block: it begins with a closing brace. -/
def closes (l : List Char) : Bool := (ink l).head? = some '\x7d'

/-- Whether a line opens a block: it ends in an opening brace. -/
def opens (l : List Char) : Bool := l.getLast? = some '\x7b'

/-- Whether the body of an arrow function is to follow on the next line. -/
def awaits (l : List Char) : Bool := ['=', '>'].isSuffixOf l

/-- What is open between two lines. -/
structure Nesting where
  /-- How many blocks are open. -/
  blocks : Nat
  /-- Whether the body of an arrow function is. -/
  body : Bool
  deriving DecidableEq, Repr

/-- Between two lines of a block at a depth. -/
abbrev Nesting.within (depth : Nat) : Nesting := ⟨depth, false⟩

/-- What is open after a line, if the line is in its place: a line that is not blank is indented by two
spaces for each block that is open at it and for the body of an arrow function, which is one line. -/
def Nesting.after (n : Nesting) (l : List Char) : Option Nesting :=
  if isBlank l then if n.body then none else some n
  else if n.body then
    if indentation l = 2 * (n.blocks + 1) && !closes l && !opens l && !awaits l then
      some (.within n.blocks)
    else none
  else if closes l then
    if 0 < n.blocks && indentation l = 2 * (n.blocks - 1) && !opens l && !awaits l then
      some (.within (n.blocks - 1))
    else none
  else if indentation l = 2 * n.blocks then
    some ⟨if opens l then n.blocks + 1 else n.blocks, awaits l⟩
  else none

/-- A block with an arrow function; the same without the indentation of the body. -/
example :
    (["it(() => \x7b", "  const f = () =>", "    g();", "", "  f();", "\x7d);"].map
        String.toList).foldlM Nesting.after (.within 0) = some (.within 0) ∧
      (["it(() => \x7b", "  const f = () =>", "  g();", "\x7d);"].map
        String.toList).foldlM Nesting.after (.within 0) = none := by
  decide

/-- Whether a line may follow another: after a blank line neither a blank line nor a closing line. -/
def MayFollow (l next : List Char) : Prop :=
  isBlank l = true → isBlank next = false ∧ closes next = false

/-- Whether some lines are nested, with what is open before and after them. -/
structure IsNested (start : Nesting) (ls : List (List Char)) (n : Nesting) : Prop where
  /-- They are lines. -/
  unbroken : ∀ l ∈ ls, '\n' ∉ l
  /-- Blank lines are empty. -/
  empty : ∀ l ∈ ls, isBlank l = true → l = []
  /-- Each is indented by what is open at it. -/
  nested : ls.foldlM Nesting.after start = some n
  /-- Blank lines stand alone, and not before closing lines. -/
  spaced : ls.IsChain MayFollow

section joined
variable {a b : List (List Char)} {l : List Char} {start n m : Nesting}

@[simp] theorem isBlank_nil : isBlank [] = true := rfl

theorem isNested_nil (n : Nesting) : IsNested n [] n := ⟨nofun, nofun, rfl, .nil⟩

/-- Nested lines after each other are nested, unless the first of them may not follow. -/
theorem IsNested.append (ha : IsNested start a n) (hb : IsNested n b m)
    (h : ∀ l ∈ a.getLast?, ∀ next ∈ b.head?, MayFollow l next) : IsNested start (a ++ b) m where
  unbroken l hl := (List.mem_append.mp hl).elim (ha.unbroken l) (hb.unbroken l)
  empty l hl := (List.mem_append.mp hl).elim (ha.empty l) (hb.empty l)
  nested := by rw [List.foldlM_append, ha.nested]; exact hb.nested
  spaced := List.isChain_append.mpr ⟨ha.spaced, hb.spaced, h⟩

/-- One line is nested if it is in its place. -/
theorem isNested_singleton (hl : '\n' ∉ l) (he : isBlank l = true → l = [])
    (h : n.after l = some m) : IsNested n [l] m where
  unbroken := by simpa using hl
  empty := by simpa using he
  nested := by rw [List.foldlM_cons, h]; rfl
  spaced := .singleton l

end joined

/-! ### Items as lines -/

/-- The line of a text at a depth. -/
def lineOf (depth : Nat) (t : String) : List Char :=
  if t.toList.isEmpty then [] else indent depth ++ t.toList

/-- The line that an item is written as, unless it is a gap. -/
def line? : Layout → Option (List Char)
  | line depth t | closing depth t => some (lineOf depth t)
  | gap => none

/-- Lines without a blank line at their end. -/
def dropBlank (ls : List (List Char)) : List (List Char) :=
  if ls.getLast? = some [] then ls.dropLast else ls

/-- Lines with a blank line at their end, if there are any. -/
def addBlank (ls : List (List Char)) : List (List Char) :=
  if ls = [] ∨ ls.getLast? = some [] then ls else ls ++ [[]]

/-- Lines with those of one more item. -/
def add (ls : List (List Char)) : Layout → List (List Char)
  | line depth t => ls ++ [lineOf depth t]
  | closing depth t => dropBlank ls ++ [lineOf depth t]
  | gap => addBlank ls

/-- The lines as which some items are written. -/
def written (items : List Layout) : List (List Char) := items.foldl add []

theorem lineOf_zero (t : String) : lineOf 0 t = t.toList := by
  unfold lineOf
  split
  · next h => exact (List.isEmpty_iff.mp h).symm
  · rfl

section written
variable {ls rest : List (List Char)} {l : List Char} {depth : Nat} {t : String}

theorem ofLines_append (a b : List (List Char)) : ofLines (a ++ b) = ofLines a ++ ofLines b :=
  List.flatMap_append

/-- A blank line is its line break. -/
theorem ofLines_blank (ls : List (List Char)) : ofLines ([] :: ls) = '\n' :: ofLines ls := rfl

theorem ofLines_concat (ls : List (List Char)) (l : List Char) :
    ofLines (ls ++ [l]) = ofLines ls ++ l ++ ['\n'] := by
  rw [ofLines_append, ofLines, ofLines, List.flatMap_singleton, List.append_assoc]

theorem ofLines_map (depth : Nat) (ts : List String) :
    ofLines (ts.map (lineOf depth)) = ts.flatMap (lineChars depth) := by
  rw [ofLines, List.flatMap_map]
  rfl

/-- The last of some lines is blank, or ends in something else than a line break. -/
theorem exists_last_line (h : ∀ l ∈ ls, '\n' ∉ l) : ls = [] ∨ (∃ init, ls = init ++ [[]]) ∨
    ∃ init x c, c ≠ '\n' ∧ ls = init ++ [x ++ [c]] := by
  rcases List.eq_nil_or_concat ls with rfl | ⟨init, last, rfl⟩
  · exact .inl rfl
  · rw [List.concat_eq_append] at h ⊢
    rcases List.eq_nil_or_concat last with rfl | ⟨x, c, rfl⟩
    · exact .inr (.inl ⟨init, rfl⟩)
    · rw [List.concat_eq_append] at h ⊢
      refine .inr (.inr ⟨init, x, c, ?_, rfl⟩)
      rintro rfl
      exact h _ (List.mem_concat_self) List.mem_concat_self

theorem reverse_ofLines_concat (ls : List (List Char)) (x : List Char) (c : Char) :
    (ofLines (ls ++ [x ++ [c]])).reverse = '\n' :: c :: (ofLines ls ++ x).reverse := by
  rw [ofLines_concat]
  simp

/-- Of lines whose first is not blank, a gap at the end is a blank line at the end. -/
theorem dropGap_ofLines (h : ∀ l ∈ ls, '\n' ∉ l) (hfirst : ls.head? ≠ some []) :
    dropGap (ofLines ls).reverse = (ofLines (dropBlank ls)).reverse := by
  rcases exists_last_line h with rfl | ⟨init, rfl⟩ | ⟨init, x, c, hc, rfl⟩
  · rfl
  · rcases List.eq_nil_or_concat init with rfl | ⟨init, last, rfl⟩
    · exact absurd rfl hfirst
    · rw [dropBlank, List.getLast?_concat, if_pos rfl, List.dropLast_concat, List.concat_eq_append,
        ofLines_concat, ofLines_concat]
      simp [dropGap]
  · rw [dropBlank, List.getLast?_concat, if_neg (by simp), reverse_ofLines_concat]
    simp [dropGap, hc]

theorem addGap_ofLines (h : ∀ l ∈ ls, '\n' ∉ l) (hfirst : ls.head? ≠ some []) :
    addGap (ofLines ls).reverse = (ofLines (addBlank ls)).reverse := by
  rcases exists_last_line h with rfl | ⟨init, rfl⟩ | ⟨init, x, c, hc, rfl⟩
  · rfl
  · rcases List.eq_nil_or_concat init with rfl | ⟨init, last, rfl⟩
    · exact absurd rfl hfirst
    · rw [addBlank, if_pos (.inr List.getLast?_concat), List.concat_eq_append, ofLines_concat,
        ofLines_concat]
      simp [addGap]
  · rw [addBlank, if_neg (by simp), ofLines_concat (init ++ _), reverse_ofLines_concat]
    simp [addGap, hc, ofLines_concat]

/-- An item is written after lines as it is added to them. -/
theorem put_ofLines (h : ∀ l ∈ ls, '\n' ∉ l) (hfirst : ls.head? ≠ some []) (item : Layout) :
    put (ofLines ls).reverse item = (ofLines (add ls item)).reverse := by
  have hline (ls : List (List Char)) (depth : Nat) (t : String) :
      (lineChars depth t).reverse ++ (ofLines ls).reverse =
        (ofLines (ls ++ [lineOf depth t])).reverse := by
    rw [ofLines_concat, ← List.reverse_append, List.append_assoc]
    rfl
  cases item with
  | line depth t => exact hline ls depth t
  | closing depth t => rw [put, dropGap_ofLines h hfirst, hline, add]
  | gap => exact addGap_ofLines h hfirst

end written

/-! ### What items do -/

/-- What an item does to what is open. -/
inductive Leads : Nesting → Layout → Nesting → Prop
  | line {n m : Nesting} {depth : Nat} {t : String} : '\n' ∉ t.toList →
      isBlank (lineOf depth t) = false → closes (lineOf depth t) = false →
      n.after (lineOf depth t) = some m → Leads n (.line depth t) m
  | closing {n m : Nesting} {depth : Nat} {t : String} : '\n' ∉ t.toList →
      isBlank (lineOf depth t) = false → n.after (lineOf depth t) = some m →
      Leads n (.closing depth t) m
  | gap {depth : Nat} : Leads (.within depth) .gap (.within depth)

/-- What some items one after another do to what is open. -/
inductive LeadsOn : Nesting → List Layout → Nesting → Prop
  | nil {n : Nesting} : LeadsOn n [] n
  | cons {n k m : Nesting} {item : Layout} {items : List Layout} : Leads n item k →
      LeadsOn k items m → LeadsOn n (item :: items) m

/-- Whether some items stand in a block and leave it as it was. -/
structure Balanced (depth : Nat) (items : List Layout) : Prop where
  /-- What is open after them was open before. -/
  leads : LeadsOn (.within depth) items (.within depth)
  /-- None of them stands further out. -/
  inside : ∀ item ∈ items, ∀ l ∈ item.line?, 2 * depth ≤ indentation l

section leads
variable {start n m k : Nesting} {item : Layout} {items items' : List Layout}
  {ls : List (List Char)} {l : List Char} {depth : Nat} {t : String}

theorem Leads.on (h : Leads n item m) : LeadsOn n [item] m := .cons h .nil

theorem LeadsOn.append (h : LeadsOn n items k) (h' : LeadsOn k items' m) :
    LeadsOn n (items ++ items') m := by
  induction h with
  | nil => exact h'
  | cons hitem _ ih => exact .cons hitem (ih h')

theorem balanced_nil (depth : Nat) : Balanced depth [] := ⟨.nil, nofun⟩

theorem balanced_gap (depth : Nat) : Balanced depth [.gap] := ⟨Leads.gap.on, by simp [line?]⟩

theorem Balanced.append (h : Balanced depth items) (h' : Balanced depth items') :
    Balanced depth (items ++ items') :=
  ⟨h.leads.append h'.leads, List.forall_mem_append.mpr ⟨h.inside, h'.inside⟩⟩

theorem balanced_flatMap {α : Type} {f : α → List Layout} {xs : List α}
    (h : ∀ x ∈ xs, Balanced depth (f x)) : Balanced depth (xs.flatMap f) := by
  induction xs with
  | nil => exact balanced_nil depth
  | cons x xs ih =>
      rw [List.flatMap_cons]
      exact (h x List.mem_cons_self).append (ih fun y hy => h y (List.mem_cons_of_mem x hy))

theorem notMem_lineOf (h : '\n' ∉ t.toList) (depth : Nat) : '\n' ∉ lineOf depth t := by
  unfold lineOf
  split
  · exact List.not_mem_nil
  · simp [indent, h]

/-- A blank line leaves what is open, and may not stand in the place of a body. -/
theorem after_nil_eq_some : n.after [] = some m ↔ n.body = false ∧ m = n := by
  unfold Nesting.after
  cases hb : n.body <;> simp [eq_comm]

/-- Nested lines are nested without a blank line at their end, and no other blank line is there. -/
theorem IsNested.dropBlank (h : IsNested start ls n) : IsNested start (dropBlank ls) n ∧
    ∀ l ∈ (Layout.dropBlank ls).getLast?, isBlank l = false := by
  unfold Layout.dropBlank
  split
  · next hlast =>
    obtain ⟨init, rfl⟩ := List.getLast?_eq_some_iff.mp hlast
    obtain ⟨hspaced, -, hfollow⟩ := List.isChain_append.mp h.spaced
    have hnested := h.nested
    rw [List.foldlM_append] at hnested
    obtain ⟨k, hk, hlast⟩ := Option.bind_eq_some_iff.mp hnested
    obtain ⟨k', hk', hpure⟩ := Option.bind_eq_some_iff.mp hlast
    obtain rfl : k' = n := Option.some.inj hpure
    obtain ⟨-, rfl⟩ := after_nil_eq_some.mp hk'
    rw [List.dropLast_concat]
    refine ⟨⟨fun l hl => h.unbroken l (List.mem_append_left _ hl),
      fun l hl => h.empty l (List.mem_append_left _ hl), hk, hspaced⟩, fun l hl => ?_⟩
    rw [Bool.eq_false_iff]
    intro hblank
    exact absurd (hfollow l hl [] rfl hblank).1 (by decide)
  · next hlast =>
    refine ⟨h, fun l hl => ?_⟩
    rw [Bool.eq_false_iff]
    intro hblank
    rw [h.empty l (List.mem_of_getLast? hl) hblank] at hl
    exact hlast hl

/-- What leads from one nesting to another keeps lines nested when it is written after them. -/
theorem IsNested.add (h : IsNested start ls n) (hitem : Leads n item m) :
    IsNested start (add ls item) m := by
  cases hitem with
  | line ht hblank hcloses hafter =>
      refine h.append (isNested_singleton (notMem_lineOf ht _) ?_ hafter) ?_
      · rw [hblank]
        exact nofun
      · rintro l - next hnext -
        obtain rfl := Option.some.inj hnext
        exact ⟨hblank, hcloses⟩
  | closing ht hblank hafter =>
      obtain ⟨hdrop, hlast⟩ := h.dropBlank
      refine hdrop.append (isNested_singleton (notMem_lineOf ht _) ?_ hafter) ?_
      · rw [hblank]
        exact nofun
      · rintro l hl next - hl'
        rw [hlast l hl] at hl'
        cases hl'
  | gap =>
      unfold Layout.add addBlank
      dsimp only
      split
      · exact h
      · next hlast =>
        refine h.append (isNested_singleton (by simp) (fun _ => rfl)
          (after_nil_eq_some.mpr ⟨rfl, rfl⟩)) ?_
        rintro l hl next - hblank
        rw [h.empty l (List.mem_of_getLast? hl) hblank] at hl
        exact absurd (.inr hl) hlast

/-- A first line that is not blank stays where it is. -/
theorem exists_dropBlank_cons (hl : l ≠ []) (rest : List (List Char)) :
    ∃ rest', Layout.dropBlank (l :: rest) = l :: rest' ∧ ∀ x ∈ rest', x ∈ rest := by
  unfold Layout.dropBlank
  split
  · next hlast =>
    cases rest with
    | nil => exact absurd (Option.some.inj hlast) hl
    | cons y rest => exact ⟨_, List.dropLast_cons_cons, fun _ hx => List.dropLast_subset _ hx⟩
  · exact ⟨rest, rfl, fun _ => id⟩

/-- Behind a first line that is not blank, an item adds its line and blank ones. -/
theorem exists_add_cons (hl : l ≠ []) (rest : List (List Char)) (item : Layout) :
    ∃ rest', Layout.add (l :: rest) item = l :: rest' ∧
      ∀ x ∈ rest', x ∈ rest ∨ x = [] ∨ item.line? = some x := by
  cases item with
  | line depth t =>
      refine ⟨rest ++ [lineOf depth t], rfl, fun x hx => ?_⟩
      rcases List.mem_append.mp hx with hx | hx
      · exact .inl hx
      · exact .inr (.inr (congrArg some (List.mem_singleton.mp hx).symm))
  | closing depth t =>
      obtain ⟨rest', hrest, hmem⟩ := exists_dropBlank_cons hl rest
      refine ⟨rest' ++ [lineOf depth t], by rw [Layout.add, hrest]; rfl, fun x hx => ?_⟩
      rcases List.mem_append.mp hx with hx | hx
      · exact .inl (hmem x hx)
      · exact .inr (.inr (congrArg some (List.mem_singleton.mp hx).symm))
  | gap =>
      unfold Layout.add addBlank
      dsimp only
      split
      · exact ⟨rest, rfl, fun x hx => .inl hx⟩
      · refine ⟨rest ++ [[]], rfl, fun x hx => ?_⟩
        rcases List.mem_append.mp hx with hx | hx
        · exact .inl hx
        · exact .inr (.inl (List.mem_singleton.mp hx))

theorem exists_foldl_add_cons (hl : l ≠ []) (rest : List (List Char)) (items : List Layout) :
    ∃ rest', items.foldl Layout.add (l :: rest) = l :: rest' ∧
      ∀ x ∈ rest', x ∈ rest ∨ x = [] ∨ ∃ item ∈ items, item.line? = some x := by
  induction items generalizing rest with
  | nil => exact ⟨rest, rfl, fun x hx => .inl hx⟩
  | cons item items ih =>
      obtain ⟨rest₁, hadd, hmem⟩ := exists_add_cons hl rest item
      obtain ⟨rest₂, hfold, hmem'⟩ := ih rest₁
      refine ⟨rest₂, by rw [List.foldl_cons, hadd, hfold], fun x hx => ?_⟩
      rcases hmem' x hx with hx | hx | ⟨i, hi, hx⟩
      · rcases hmem x hx with hx | hx | hx
        · exact .inl hx
        · exact .inr (.inl hx)
        · exact .inr (.inr ⟨item, List.mem_cons_self, hx⟩)
      · exact .inr (.inl hx)
      · exact .inr (.inr ⟨i, List.mem_cons_of_mem item hi, hx⟩)

/-- The first line is not blank after an item if it was not before. -/
theorem head?_add (hfirst : ls.head? ≠ some []) (hitem : Leads n item m) :
    (Layout.add ls item).head? ≠ some [] := by
  have hline {l : List Char} (hblank : isBlank l = false) : [l].head? ≠ some [] := by
    rintro h
    rw [Option.some.inj h] at hblank
    cases hblank
  cases ls with
  | nil =>
      cases hitem with
      | line _ hblank => exact hline hblank
      | closing _ hblank => exact hline hblank
      | gap => exact hfirst
  | cons l rest =>
      obtain ⟨rest', hadd, -⟩ := exists_add_cons (fun h => hfirst (congrArg some h)) rest item
      rw [hadd]
      exact hfirst

/-- Items that lead from one nesting to another are written after nested lines as they are added to
them, and the lines stay nested. -/
theorem isNested_foldl_add (hon : LeadsOn n items m) (h : IsNested start ls n)
    (hfirst : ls.head? ≠ some []) : IsNested start (items.foldl Layout.add ls) m ∧
      items.foldl put (ofLines ls).reverse = (ofLines (items.foldl Layout.add ls)).reverse := by
  induction hon generalizing ls with
  | nil => exact ⟨h, rfl⟩
  | cons hitem _ ih =>
      rw [List.foldl_cons, List.foldl_cons, put_ofLines h.unbroken hfirst]
      exact ih (h.add hitem) (head?_add hfirst hitem)

/-- Items that lead from one nesting to another are written as nested lines. -/
theorem isNested_written (h : LeadsOn n items m) :
    IsNested n (written items) m ∧ render items = ofLines (written items) := by
  obtain ⟨hnested, hput⟩ := isNested_foldl_add h (isNested_nil n) (by simp)
  refine ⟨hnested, ?_⟩
  rw [render, renderRev, show ([] : List Char) = (ofLines []).reverse from rfl, hput,
    List.reverse_reverse, written]

/-- What is written of an opening line, some items and a closing line: the two lines, and between them
the lines of the items and blank ones. -/
theorem exists_written_block (ht : lineOf depth t ≠ []) (t' : String) (items : List Layout) :
    ∃ inner, written (.line depth t :: items ++ [.closing depth t']) =
        lineOf depth t :: inner ++ [lineOf depth t'] ∧
      ∀ x ∈ inner, x = [] ∨ ∃ item ∈ items, item.line? = some x := by
  obtain ⟨rest, hfold, hmem⟩ := exists_foldl_add_cons ht [] items
  obtain ⟨inner, hdrop, hmem'⟩ := exists_dropBlank_cons ht rest
  refine ⟨inner, ?_, fun x hx => (hmem x (hmem' x hx)).resolve_left List.not_mem_nil⟩
  rw [written, List.cons_append, List.foldl_cons, List.foldl_append, Layout.add, List.nil_append,
    hfold, List.foldl_cons, List.foldl_nil, Layout.add, hdrop]

end leads

/-! ### Texts of lines -/

/-- Whether a text stands on one line, and begins and ends with characters of some kinds. -/
structure IsText (first last : Char → Bool) (t : String) : Prop where
  /-- No line ends in it. -/
  unbroken : '\n' ∉ t.toList
  /-- It begins with a character of one kind. -/
  first : t.toList.head?.any first = true
  /-- It ends with a character of the other kind. -/
  last : t.toList.getLast?.any last = true

instance (first last : Char → Bool) (t : String) : Decidable (IsText first last t) :=
  decidable_of_iff ('\n' ∉ t.toList ∧ t.toList.head?.any first = true ∧
    t.toList.getLast?.any last = true) ⟨fun h => ⟨h.1, h.2.1, h.2.2⟩, fun h => ⟨h.1, h.2, h.3⟩⟩

/-- Whether a character may begin a line that closes nothing. -/
def beginsPlain (c : Char) : Bool := c ≠ ' ' && c ≠ '\x7d'

/-- Whether a character may end a line that opens nothing. -/
def endsPlain (c : Char) : Bool := c ≠ '\x7b' && c ≠ '>'

/-- Whether a text neither opens nor closes anything. -/
abbrev Plain : String → Prop := IsText beginsPlain endsPlain

/-- Whether a text opens a block. -/
abbrev Opening : String → Prop := IsText beginsPlain (· = '\x7b')

/-- Whether a text closes a block. -/
abbrev Closing : String → Prop := IsText (· = '\x7d') endsPlain

/-- Whether an arrow function begins with a text, on the line before its body. -/
structure Arrow (t : String) : Prop extends IsText beginsPlain (· = '>') t where
  /-- It ends in an arrow. -/
  arrow : ['=', '>'] <:+ t.toList

section texts
variable {first last : Char → Bool} {a t b : String} {depth : Nat} {items : List Layout}

/-- Of what stands between two texts only matters that no line ends in it. -/
theorem IsText.around (ha : '\n' ∉ a.toList ∧ a.toList.head?.any first = true)
    (ht : '\n' ∉ t.toList) (hb : '\n' ∉ b.toList ∧ b.toList.getLast?.any last = true) :
    IsText first last (a ++ t ++ b) where
  unbroken := by simp [ha.1, ht, hb.1]
  first := by
    obtain ⟨c, hc, hfirst⟩ := (Option.any_eq_true _ _).mp ha.2
    simp [List.head?_append, hc, hfirst]
  last := by
    obtain ⟨c, hc, hlast⟩ := (Option.any_eq_true _ _).mp hb.2
    simp [List.getLast?_append, hc, hlast]

/-- The line of a text that begins with no space, read as a line. -/
theorem lineOf_reads {c e : Char} (hc : t.toList.head? = some c) (hspace : c ≠ ' ')
    (he : t.toList.getLast? = some e) (depth : Nat) :
    isBlank (lineOf depth t) = false ∧ indentation (lineOf depth t) = 2 * depth ∧
      closes (lineOf depth t) = decide (c = '\x7d') ∧ opens (lineOf depth t) = decide (e = '\x7b') ∧
      (e ≠ '>' → awaits (lineOf depth t) = false) := by
  obtain ⟨rest, ht⟩ := List.head?_eq_some_iff.mp hc
  have hline : lineOf depth t = indent depth ++ c :: rest := by rw [lineOf, ht]; rfl
  have hspaces : ∀ x ∈ indent depth, decide (x = ' ') = true := fun x hx => by
    rw [List.eq_of_mem_replicate hx]
    rfl
  have hink : ink (lineOf depth t) = c :: rest := by
    rw [ink, hline, List.dropWhile_append_of_pos hspaces, List.dropWhile_cons_of_neg (by simpa)]
  have hlast : (lineOf depth t).getLast? = some e := by
    rw [hline, List.getLast?_append_of_ne_nil _ (List.cons_ne_nil c rest), ← ht, he]
  refine ⟨by rw [isBlank, hink]; rfl, ?_, by rw [closes, hink]; simp, by rw [opens, hlast]; simp,
    fun hne => ?_⟩
  · rw [indentation, hline, List.takeWhile_append_of_pos hspaces,
      List.takeWhile_cons_of_neg (by simpa), List.append_nil, indent, List.length_replicate]
  · rw [awaits, Bool.eq_false_iff, ne_eq, List.isSuffixOf_iff_suffix]
    rintro ⟨init, hinit⟩
    rw [← hinit, List.getLast?_append_of_ne_nil _ (by simp)] at hlast
    exact hne (Option.some.inj hlast).symm

/-- The line of a text that begins with no space, by the kinds of its first and last characters. -/
theorem IsText.reads (h : IsText first last t) (hspace : first ' ' = false) (depth : Nat) :
    ∃ c e, first c = true ∧ last e = true ∧
      isBlank (lineOf depth t) = false ∧ indentation (lineOf depth t) = 2 * depth ∧
      closes (lineOf depth t) = decide (c = '\x7d') ∧ opens (lineOf depth t) = decide (e = '\x7b') ∧
      (e ≠ '>' → awaits (lineOf depth t) = false) := by
  obtain ⟨c, hc, hfirst⟩ := (Option.any_eq_true _ _).mp h.first
  obtain ⟨e, he, hlast⟩ := (Option.any_eq_true _ _).mp h.last
  have hne : c ≠ ' ' := by
    rintro rfl
    rw [hspace] at hfirst
    cases hfirst
  exact ⟨c, e, hfirst, hlast, lineOf_reads hc hne he depth⟩

/-- The line of a text that opens and closes nothing. -/
theorem IsText.plain_reads (h : Plain t) (depth : Nat) :
    isBlank (lineOf depth t) = false ∧ indentation (lineOf depth t) = 2 * depth ∧
      closes (lineOf depth t) = false ∧ opens (lineOf depth t) = false ∧
      awaits (lineOf depth t) = false := by
  obtain ⟨c, e, hc, he, hblank, hindent, hcloses, hopens, hawaits⟩ := h.reads (by decide) depth
  simp only [beginsPlain, endsPlain, Bool.and_eq_true, decide_eq_true_eq] at hc he
  rw [decide_eq_false hc.2] at hcloses
  rw [decide_eq_false he.1] at hopens
  exact ⟨hblank, hindent, hcloses, hopens, hawaits he.2⟩

/-- A text that opens and closes nothing leaves what is open. -/
theorem IsText.balanced (h : Plain t) (depth : Nat) : Balanced depth [.line depth t] := by
  obtain ⟨hblank, hindent, hcloses, hopens, hawaits⟩ := h.plain_reads depth
  refine ⟨(Leads.line h.unbroken hblank hcloses ?_).on, by simp [line?, hindent]⟩
  simp [Nesting.after, hblank, hcloses, hopens, hawaits, hindent]

/-- The line of a text that opens a block. -/
theorem IsText.opening_reads (h : Opening t) (depth : Nat) :
    isBlank (lineOf depth t) = false ∧ indentation (lineOf depth t) = 2 * depth ∧
      closes (lineOf depth t) = false ∧ opens (lineOf depth t) = true ∧
      awaits (lineOf depth t) = false := by
  obtain ⟨c, e, hc, he, hblank, hindent, hcloses, hopens, hawaits⟩ := h.reads (by decide) depth
  simp only [beginsPlain, Bool.and_eq_true, decide_eq_true_eq] at hc he
  rw [decide_eq_false hc.2] at hcloses
  rw [decide_eq_true he] at hopens
  exact ⟨hblank, hindent, hcloses, hopens, hawaits (by rw [he]; decide)⟩

/-- A text that opens a block leads into it. -/
theorem IsText.leads_opening (h : Opening t) (depth : Nat) :
    Leads (.within depth) (.line depth t) (.within (depth + 1)) := by
  obtain ⟨hblank, hindent, hcloses, hopens, hawaits⟩ := h.opening_reads depth
  refine .line h.unbroken hblank hcloses ?_
  simp [Nesting.after, hblank, hcloses, hopens, hawaits, hindent]

/-- A text that closes a block leads out of it. -/
theorem IsText.leads_closing (h : Closing t) (depth : Nat) :
    Leads (.within (depth + 1)) (.closing depth t) (.within depth) := by
  obtain ⟨c, e, hc, he, hblank, hindent, hcloses, hopens, hawaits⟩ := h.reads (by decide) depth
  simp only [endsPlain, Bool.and_eq_true, decide_eq_true_eq] at hc he
  rw [decide_eq_true hc] at hcloses
  rw [decide_eq_false he.1] at hopens
  refine .closing h.unbroken hblank ?_
  simp [Nesting.after, hblank, hcloses, hopens, hawaits he.2, hindent]

/-- The line before the body of an arrow function, and the body. -/
theorem Arrow.balanced {body : String} (h : Arrow t) (hbody : Plain body) (depth : Nat) :
    Balanced depth [.line depth t, .line (depth + 1) body] := by
  obtain ⟨c, e, hc, he, hblank, hindent, hcloses, hopens, -⟩ := h.reads (by decide) depth
  simp only [beginsPlain, Bool.and_eq_true, decide_eq_true_eq] at hc he
  rw [decide_eq_false hc.2] at hcloses
  rw [he, decide_eq_false (by decide)] at hopens
  have hawaits : awaits (lineOf depth t) = true := by
    have hsuffix : t.toList <:+ lineOf depth t := by
      unfold lineOf
      split
      · next hnil => simp [List.isEmpty_iff.mp hnil]
      · exact List.suffix_append _ _
    exact List.isSuffixOf_iff_suffix.mpr (h.arrow.trans hsuffix)
  obtain ⟨hblank', hindent', hcloses', hopens', hawaits'⟩ := hbody.plain_reads (depth + 1)
  have hhead : Leads (.within depth) (.line depth t) ⟨depth, true⟩ := by
    refine .line h.unbroken hblank hcloses ?_
    simp [Nesting.after, hblank, hcloses, hopens, hawaits, hindent]
  have htail : Leads ⟨depth, true⟩ (.line (depth + 1) body) (.within depth) := by
    refine .line hbody.unbroken hblank' hcloses' ?_
    simp [Nesting.after, hblank', hcloses', hopens', hawaits', hindent']
  refine ⟨.cons hhead htail.on, ?_⟩
  simp only [List.forall_mem_cons, line?, Option.mem_some_iff, forall_eq']
  exact ⟨Nat.le_of_eq hindent.symm, by omega, nofun⟩

/-- Lines that open and close nothing. -/
theorem balanced_lines {ts : List String} (h : ∀ t ∈ ts, Plain t) (depth : Nat) :
    Balanced depth (ts.map (.line depth)) := by
  rw [List.map_eq_flatMap]
  exact balanced_flatMap fun t ht => (h t ht).balanced depth

/-- A block with items that leave it as it was. -/
theorem balanced_block (ht : Opening t) (hb : Closing b) (h : Balanced (depth + 1) items) :
    Balanced depth (.line depth t :: items ++ [.closing depth b]) := by
  obtain ⟨-, hopening, -⟩ := ht.opening_reads depth
  obtain ⟨_, _, _, _, -, hclosing, -⟩ := hb.reads (by decide) depth
  refine ⟨.cons (ht.leads_opening depth) (h.leads.append (hb.leads_closing depth).on), ?_⟩
  rw [List.forall_mem_append, List.forall_mem_cons, List.forall_mem_singleton]
  simp only [line?, Option.mem_some_iff, forall_eq']
  refine ⟨⟨Nat.le_of_eq hopening.symm, fun item hitem l hl => ?_⟩, Nat.le_of_eq hclosing.symm⟩
  exact Nat.le_trans (by omega) (h.inside item hitem l hl)

end texts

/-! ### Parts -/

/-- Whether some lines may stand by themselves between blank lines. -/
structure IsPart (ls : List (List Char)) : Prop where
  /-- They are nested by themselves. -/
  nested : IsNested (.within 0) ls (.within 0)
  /-- They begin with a line that is neither blank nor a closing line. -/
  first : ∃ l, ls.head? = some l ∧ isBlank l = false ∧ closes l = false
  /-- They end with a line that is not blank. -/
  last : ∃ l, ls.getLast? = some l ∧ isBlank l = false

section parts
variable {a b : List (List Char)}

/-- Two parts with a blank line between them. -/
theorem IsPart.gap (ha : IsPart a) (hb : IsPart b) : IsPart (a ++ [] :: b) := by
  obtain ⟨l, hl, hblank⟩ := ha.last
  obtain ⟨l', hl', hblank', hcloses'⟩ := hb.first
  have hgap : IsNested (.within 0) ([] :: b) (.within 0) := by
    refine (isNested_singleton (by simp) (fun _ => rfl)
      (after_nil_eq_some.mpr ⟨rfl, rfl⟩)).append hb.nested ?_
    rintro x - next hnext -
    obtain rfl := Option.some.inj (hl'.symm.trans hnext)
    exact ⟨hblank', hcloses'⟩
  refine ⟨ha.nested.append hgap ?_, ?_, ?_⟩
  · rintro x hx next - hx'
    obtain rfl := Option.some.inj (hl.symm.trans hx)
    rw [hblank] at hx'
    cases hx'
  · obtain ⟨first, hfirst, hrest⟩ := ha.first
    exact ⟨first, by rw [List.head?_append, hfirst]; rfl, hrest⟩
  · obtain ⟨last, hlast, hrest⟩ := hb.last
    refine ⟨last, ?_, hrest⟩
    rw [List.getLast?_append, List.getLast?_cons, hlast]
    rfl

/-- Parts with a blank line before each after the first. -/
theorem IsPart.gaps {α : Type} {f : α → List (List Char)} {xs : List α} (ha : IsPart a)
    (h : ∀ x ∈ xs, IsPart (f x)) : IsPart (a ++ xs.flatMap fun x => [] :: f x) := by
  induction xs generalizing a with
  | nil => rwa [List.flatMap_nil, List.append_nil]
  | cons x xs ih =>
      rw [List.flatMap_cons, ← List.append_assoc]
      exact ih (ha.gap (h x List.mem_cons_self)) fun y hy => h y (List.mem_cons_of_mem x hy)

theorem foldl_add_lines (ls : List (List Char)) (depth : Nat) (ts : List String) :
    (ts.map (Layout.line depth)).foldl add ls = ls ++ ts.map (lineOf depth) := by
  induction ts generalizing ls with
  | nil => exact (List.append_nil ls).symm
  | cons t ts ih =>
      rw [List.map_cons, List.foldl_cons, ih, add, List.append_assoc, List.map_cons,
        List.singleton_append]

/-- Lines at the margin that open and close nothing are a part. -/
theorem isPart_lines {ts : List String} (hne : ts ≠ []) (h : ∀ t ∈ ts, Plain t) :
    IsPart (ts.map (lineOf 0)) := by
  have hreads (t : String) (ht : t ∈ ts) := (h t ht).plain_reads 0
  have hnested := (isNested_written (balanced_lines h 0).leads).1
  rw [written, foldl_add_lines, List.nil_append] at hnested
  refine ⟨hnested, ?_, ?_⟩
  · obtain ⟨t, rest, rfl⟩ := List.exists_cons_of_ne_nil hne
    obtain ⟨hblank, -, hcloses, -⟩ := hreads t List.mem_cons_self
    exact ⟨lineOf 0 t, rfl, hblank, hcloses⟩
  · obtain ⟨t, ht⟩ := Option.isSome_iff_exists.mp (List.getLast?_isSome.mpr hne)
    refine ⟨lineOf 0 t, by rw [List.getLast?_map, ht]; rfl, ?_⟩
    exact (hreads t (List.mem_of_getLast? ht)).1

end parts

end Layout

end Trellis
