import Trellis.Proofs.Suite.Cases
import Trellis.Proofs.Suite.Entries
import Trellis.Proofs.Syntax.Lexemes

/-! # Quoted texts in a module

What the string literals denote that a generated module quotes its texts in.

* `Text.IsLiteral` says that a text is a literal of another: it stands in single quotes on one line,
  nothing but its last character closes it, and it is read as the other. `Text.isLiteral_literal`:
  every text is quoted as a literal of itself.
* `Suite.quotations?` reads the literals on a line, one after another.
* `Suite.quotesTexts`: the selectors, the titles and the keys of a module are read as what they were
  written from. -/

namespace Trellis

open Syntax

/-! ### Literals -/

namespace Text

/-- Whether a text is a literal of another text. Separators of lines and of paragraphs may stand in a
literal; a line feed and a carriage return may not. -/
structure IsLiteral (x t : List Char) : Prop where
  /-- It stands in single quotes. -/
  quoted : ∃ content, x = '\'' :: (content ++ ['\''])
  /-- It stands on one line. -/
  unbroken : '\n' ∉ x ∧ '\r' ∉ x
  /-- Whatever follows, its last character closes it. -/
  closed : ∀ rest, Lexeme.string? (x ++ rest) = some x.length
  /-- No character before closes it. -/
  unclosed : ∀ p, p <+: x → p ≠ x → Lexeme.string? p = none
  /-- It denotes the text. -/
  denotes : Expression.text? x = some t

variable {x p : List Char}

theorem toList_literal (s : String) :
    (literal s).toList = '\'' :: (Quoted.encode s.toList ++ ['\'']) := by
  rw [literal, String.toList_ofList, List.cons_append]

/-- No line ends inside of a quoted text. -/
theorem notMem_encode (s : List Char) : '\n' ∉ Quoted.encode s ∧ '\r' ∉ Quoted.encode s := by
  have hchar (c : Char) : '\n' ∉ Quoted.encodeChar c ∧ '\r' ∉ Quoted.encodeChar c := by
    unfold Quoted.encodeChar
    split
    · decide
    · split
      · decide
      · split
        · decide
        · next hfeed =>
          split
          · decide
          · next hreturn =>
            split
            · decide
            · exact ⟨by simpa using Ne.symm hfeed, by simpa using Ne.symm hreturn⟩
  simp only [Quoted.encode, List.mem_flatMap, not_exists, not_and]
  exact ⟨fun c _ => (hchar c).1, fun c _ => (hchar c).2⟩

/-- A quoted text is no longer quoted without its end. -/
theorem string?_of_prefix (h : Lexeme.IsQuoted x) (hp : p <+: x) (hne : p ≠ x) :
    Lexeme.string? p = none := by
  by_contra hsome
  obtain ⟨k, hk⟩ := Option.ne_none_iff_exists'.mp hsome
  obtain ⟨rest, rfl⟩ := hp
  have hle := Lexeme.le_of_string? hk
  -- the literal at the start of `p` is at the start of the whole text as well
  have hsplit : (p.take k).length = k := List.length_take_of_le hle
  have hstart : Lexeme.string? (p.take k ++ p.drop k) = some (p.take k).length := by
    rw [List.take_append_drop, hsplit, hk]
  have hwhole := Lexeme.string?_congr hstart (p.drop k ++ rest)
  rw [← List.append_assoc, List.take_append_drop, h, hsplit, Option.some.injEq,
    List.length_append] at hwhole
  have hnil : rest = [] := List.length_eq_zero_iff.mp (by omega)
  exact hne (by rw [hnil, List.append_nil])

theorem isQuoted_literal (s : String) : Lexeme.IsQuoted (literal s).toList := by
  rw [toList_literal, Lexeme.IsQuoted, Lexeme.string?, if_pos (by decide),
    Expression.quotedRest_encode [] (by simp), Option.map_some]
  simp [Nat.add_comm]

/-- Every text is quoted as a literal of itself. -/
theorem isLiteral_literal (s : String) : IsLiteral (literal s).toList s.toList where
  quoted := ⟨_, toList_literal s⟩
  unbroken := by
    rw [toList_literal]
    simpa using notMem_encode s.toList
  closed := (isQuoted_literal s).string?_append
  unclosed _ := string?_of_prefix (isQuoted_literal s)
  denotes := Expression.text?_literal s

/-- A literal is one of a single text. -/
theorem literal_injective : Function.Injective literal := by
  intro s t h
  have htext := Expression.text?_literal s
  rw [h, Expression.text?_literal, Option.some.injEq] at htext
  exact (String.toList_inj.mp htext).symm

/-- A backslash before a quote and at the end, a line break, and a separator of lines. -/
example : (literal "it\\'s\n\u2028\\").toList = "'it\\\\\\'s\\n\u2028\\\\'".toList := by
  decide +kernel

end Text

/-! ### Literals on a line -/

/-- What a selector looks for. -/
def Selector.sought (x : Selector) : String :=
  match x.strategy with
  | .structuralRole => x.soughtRole
  | _ => x.value

namespace Suite

/-- The texts that the literals of a text denote; `n` bounds its length. -/
def quotationsFuel : Nat → List Char → Option (List String)
  | _, [] => some []
  | 0, _ :: _ => none
  | n + 1, c :: s =>
    if c = '"' || c = '\'' then do
      let k ← Lexeme.string? (c :: s)
      let text ← Expression.text? ((c :: s).take k)
      return String.ofList text :: (← quotationsFuel n (s.drop (k - 1)))
    else quotationsFuel n s

/-- The texts that the literals on a line denote, from left to right. The line has no comments,
templates and regular expressions. -/
def quotations? (line : String) : Option (List String) :=
  quotationsFuel line.toList.length line.toList

section quotations
variable {s : List Char} {n m : Nat}

theorem quotationsFuel_congr (hn : s.length ≤ n) (hm : s.length ≤ m) :
    quotationsFuel n s = quotationsFuel m s := by
  induction n generalizing s m with
  | zero =>
      rw [List.length_eq_zero_iff.mp (Nat.le_zero.mp hn)]
      cases m <;> rfl
  | succ n ih =>
      cases s with
      | nil => cases m <;> rfl
      | cons c s =>
          rw [List.length_cons] at hn hm
          obtain ⟨m, rfl⟩ := Nat.exists_eq_add_one_of_ne_zero (Nat.ne_of_gt (Nat.zero_lt_of_lt hm))
          have hstep (k : Nat) : quotationsFuel n (s.drop k) = quotationsFuel m (s.drop k) := by
            have hdrop : (s.drop k).length ≤ s.length := by
              rw [List.length_drop]
              omega
            exact ih (by omega) (by omega)
          rw [quotationsFuel, quotationsFuel, show quotationsFuel n s = quotationsFuel m s from hstep 0]
          simp only [hstep]

theorem quotations?_nil : quotations? "" = some [] := rfl

/-- What has no quotes is passed over. -/
theorem quotations?_plain {x : String} (h : ∀ c ∈ x.toList, c ≠ '"' ∧ c ≠ '\'') (y : String) :
    quotations? (x ++ y) = quotations? y := by
  have hpass (x : List Char) (hx : ∀ c ∈ x, c ≠ '"' ∧ c ≠ '\'') :
      quotationsFuel (x ++ y.toList).length (x ++ y.toList) = quotations? y := by
    induction x with
    | nil => rfl
    | cons c x ih =>
        rw [List.forall_mem_cons] at hx
        rw [List.cons_append, List.length_cons, quotationsFuel, if_neg (by simp [hx.1]), ih hx.2]
  rw [quotations?, String.toList_append, hpass _ h]

/-- A literal is read to its closing quote. -/
theorem quotations?_literal (x y : String) :
    quotations? (Text.literal x ++ y) = (quotations? y).map (x :: ·) := by
  obtain ⟨content, hquoted⟩ := (Text.isLiteral_literal x).quoted
  have hread := (Text.isLiteral_literal x).closed y.toList
  have htext := Expression.text?_literal x
  rw [hquoted] at hread htext
  have hlength : y.toList.length ≤ (content ++ ['\''] ++ y.toList).length := by
    rw [List.length_append]
    exact Nat.le_add_left _ _
  have htake : ('\'' :: (content ++ ['\'']) ++ y.toList).take ('\'' :: (content ++ ['\''])).length =
      '\'' :: (content ++ ['\'']) := List.take_left
  have hdrop : (content ++ ['\''] ++ y.toList).drop (('\'' :: (content ++ ['\''])).length - 1) =
      y.toList := List.drop_left
  rw [quotations?, String.toList_append, hquoted, List.cons_append, List.length_cons, quotationsFuel,
    if_pos (by decide), ← List.cons_append, hread]
  simp only [Option.bind_eq_bind, Option.bind_some, htake, hdrop, htext, String.ofList_toList]
  rw [quotationsFuel_congr hlength (Nat.le_refl _), ← quotations?]
  cases quotations? y <;> rfl

/-- What stands around one literal on a line has no quotes. -/
theorem quotations?_around {before after : String}
    (hb : ∀ c ∈ before.toList, c ≠ '"' ∧ c ≠ '\'') (ha : ∀ c ∈ after.toList, c ≠ '"' ∧ c ≠ '\'')
    (x : String) : quotations? (before ++ Text.literal x ++ after) = some [x] := by
  have hafter := quotations?_plain ha ""
  rw [String.append_empty, quotations?_nil] at hafter
  rw [String.append_assoc, quotations?_plain hb, quotations?_literal, hafter]
  rfl

theorem quotations?_of_plain {x : String} (h : ∀ c ∈ x.toList, c ≠ '"' ∧ c ≠ '\'') :
    quotations? x = some [] := by
  have hread := quotations?_plain h ""
  rwa [String.append_empty, quotations?_nil] at hread

end quotations

/-! ### Selectors, keys and titles -/

theorem quotations?_query (x : Selector) : quotations? x.query = some [x.sought] := by
  unfold Selector.query Selector.sought
  cases x.strategy with
  | testId => exact quotations?_around (by simp) (by simp) _
  | accessibleLabel => exact quotations?_around (by simp) (by simp) _
  | visibleText => exact quotations?_around (by simp) (by simp) _
  | placeholder => exact quotations?_around (by simp) (by simp) _
  | structuralRole => exact quotations?_around (by simp) (by simp) _

/-- A name has no other characters than go on with a name. -/
theorem isNamePart_of_isName {name : String} (h : isName name = true) :
    ∀ c ∈ name.toList, isNamePart c = true := by
  unfold isName at h
  intro c hc
  cases hlist : name.toList with
  | nil => rw [hlist] at hc; cases hc
  | cons d rest =>
      rw [hlist, Bool.and_eq_true, List.all_eq_true] at h
      rw [hlist] at hc
      rcases List.mem_cons.mp hc with rfl | hc
      · rw [isNamePart, h.1, Bool.true_or]
      · exact h.2 c hc

/-- A name has no quotes. -/
theorem plain_of_isName {name : String} (h : isName name = true) :
    ∀ c ∈ name.toList, c ≠ '"' ∧ c ≠ '\'' := by
  intro c hc
  have hpart := isNamePart_of_isName h c hc
  constructor <;> rintro rfl <;> exact absurd hpart (by decide)

/-- The names among those of one prop that are quoted. -/
def quotedName (name : String) : List String := if isName name then [] else [name]

theorem quotations?_propKey (name : String) :
    quotations? (propKey name) = some (quotedName name) := by
  unfold propKey quotedName
  split
  · next h => exact quotations?_of_plain (plain_of_isName h)
  · have hread := quotations?_literal name ""
    rwa [String.append_empty] at hread

theorem quotations?_propAccess (name : String) :
    quotations? (propAccess name) = some (quotedName name) := by
  unfold propAccess quotedName
  split
  · next h =>
    rw [quotations?_plain (by simp), quotations?_of_plain (plain_of_isName h)]
  · exact quotations?_around (by simp) (by simp) name

/-- The title of a test of a component, by what the test is for. -/
inductive IsTitle (c : Component) : TestCase → String → Prop
  | crash : IsTitle c (crashCase c) "renders without crashing"
  | defaults : IsTitle c (defaultsCase c) "renders with default props"
  | presence {e : InteractiveElement} :
      IsTitle c (presenceCase c e) ("renders " ++ e.selector.describe e.kind)
  | conditional {e : ConditionalElement} {os : List Override} :
      IsTitle c (conditionalCase c e os) ("renders " ++ e.selector.describe e.kind ++ " when " ++
        String.intercalate " and " (os.map Override.phrase))
  | variant {p : ComponentProp} : IsTitle c (variantCase c p) ("renders with " ++ p.name ++ "=%s")
  | call {e : InteractiveElement} {handler : String} : e.handlerProps.head? = some handler →
      IsTitle c (clickCase c e)
        ("calls " ++ handler ++ " when " ++ e.selector.describe e.kind ++ " is clicked")
  | click {e : InteractiveElement} : e.handlerProps.head? = none →
      IsTitle c (clickCase c e) ("handles a click on " ++ e.selector.describe e.kind)
  | input {e : InteractiveElement} {kind : InputKind} :
      IsTitle c (inputCase c e kind) (inputUse kind (e.selector.describe e.kind)).1
  | snapshot : IsTitle c (snapshotCase c) "matches the snapshot"

theorem quotations?_titled (scenario : Scenario) (title : String) (body : List String) :
    quotations? (TestCase.titled scenario title body).opening = some [title] :=
  quotations?_around (by simp) (by simp) title

theorem quotations?_waiting (scenario : Scenario) (title : String) (body : List String) :
    quotations? (TestCase.waiting scenario title body).opening = some [title] :=
  quotations?_around (by simp) (by simp) title

/-- The line that opens a test quotes the test's title. -/
theorem IsCase.quotes_title {s : Settings} {pass : Pass} {c : Component} {t : TestCase}
    (h : IsCase s pass c t) :
    ∃ title, IsTitle c t title ∧ quotations? t.opening = some [title] := by
  have hcrash : quotations? "it('renders without crashing', () => \x7b" =
      some ["renders without crashing"] := by decide +kernel
  have hdefaults : quotations? "it('renders with default props', () => \x7b" =
      some ["renders with default props"] := by decide +kernel
  have hsnapshot : quotations? "it('matches the snapshot', () => \x7b" =
      some ["matches the snapshot"] := by decide +kernel
  cases h with
  | crash => exact ⟨_, .crash, hcrash⟩
  | defaults => exact ⟨_, .defaults, hdefaults⟩
  | presence => exact ⟨_, .presence, quotations?_titled ..⟩
  | conditional => exact ⟨_, .conditional, quotations?_titled ..⟩
  | variant => exact ⟨_, .variant, quotations?_around (by simp) (by simp) _⟩
  | @click e =>
      cases hhandler : e.handlerProps.head? with
      | some handler =>
          refine ⟨_, .call hhandler, ?_⟩
          unfold clickCase
          rw [hhandler]
          exact quotations?_waiting ..
      | none =>
          refine ⟨_, .click hhandler, ?_⟩
          unfold clickCase
          rw [hhandler]
          exact quotations?_waiting ..
  | input => exact ⟨_, .input, quotations?_waiting ..⟩
  | snapshot => exact ⟨_, .snapshot, hsnapshot⟩

/-! ### Modules -/

/-- What the texts of a module are read as that stand in quotes. -/
structure QuotesTexts : Prop where
  /-- Every text is quoted as a literal of itself. -/
  isLiteral : ∀ t : String, Text.IsLiteral (Text.literal t).toList t.toList
  /-- Different texts are quoted differently. -/
  injective : Function.Injective Text.literal
  /-- A query has one literal, which denotes what the selector looks for. -/
  query : ∀ x : Selector, quotations? x.query = some [x.sought]
  /-- The line that opens a group has one literal, which denotes the component's name. -/
  group : ∀ s pass typed c, ∃ line rest,
    (Group.ofComponent s pass c).layout s typed = .line 0 line :: rest ∧
      quotations? line = some [c.name]
  /-- The line that opens a test has one literal, which denotes the test's title. -/
  title : ∀ s pass c, ∀ t ∈ testCases s pass c,
    ∃ title, IsTitle c t title ∧ quotations? t.opening = some [title]
  /-- The key of a prop is its name, or one literal that denotes it; an entry with that key is an
  entry of the prop. -/
  key : ∀ name value, quotations? (propKey name) = some (quotedName name) ∧
    readPair? (propKey name ++ ": " ++ value) = some (name, value)
  /-- So is the key by which a default prop is asked for. -/
  access : ∀ name, quotations? (propAccess name) = some (quotedName name)

/-- The selectors, the titles and the keys of a module are read as what they were written from. -/
theorem quotesTexts : QuotesTexts where
  isLiteral := Text.isLiteral_literal
  injective := Text.literal_injective
  query := quotations?_query
  group _ _ _ c := ⟨_, _, rfl, quotations?_around (by simp) (by simp) c.name⟩
  title _ _ _ _ ht := (isCase_of_mem ht).quotes_title
  key name value := ⟨quotations?_propKey name, readPair?_entry name value⟩
  access := quotations?_propAccess

end Suite

end Trellis
