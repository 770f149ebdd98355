import Trellis.Proofs.Decimal.Numeral
import Trellis.Proofs.Suite.Stubs
import Trellis.Proofs.Text.Escapes
import Trellis.Proofs.TypeText.Shapes

/-! # Forced values

Whether a value by which a prop is made truthy or falsy is so.

* `Expression.truth?` is the truth value of an expression, for the expressions that are passed: a
  string literal is true if it denotes a text that is not empty, a number if it is neither zero nor
  no number; otherwise it is settled for each expression.
* `Mock.keptLiteral?` is the literal that is kept of a prop's type as its value.
* `Mock.Forces` says what is forced. A prop is always made falsy. It is made truthy, too, unless a
  literal is kept that is falsy, and is neither an empty text in single quotes nor the digit zero.
* `Mock.forces`: this holds of all props of all components of a source. `Mock.unforced` shows one
  that is not made truthy. -/

namespace Trellis

open Syntax

/-! ### Truth values -/

namespace Expression

/-- The text that a string literal denotes. -/
def text? (s : List Char) : Option (List Char) :=
  if Lexeme.string? s = some s.length then some (Text.Escape.decoded s.tail.dropLast) else none

/-- Whether digits begin with a zero that they do not need; these are no number of a module. -/
def isPadded : List Char → Bool
  | '0' :: c :: _ => c.isDigit
  | _ => false

/-- The truth value of a number. -/
def numberTruth? (s : List Char) : Option Bool :=
  let (negative, size) := Decimal.splitSign s
  if size = "Infinity".toList then some true
  else if size = "NaN".toList then some false
  else if isPadded size then none
  else (Decimal.readDecimal? size).map fun d => !(d.toBinary negative).isZero

/-- The truth value of an expression that is no literal. -/
def wordTruth? (s : String) : Option Bool :=
  if ["undefined", "null", "false"].contains s then some false
  else if ["true", "[]", "\x7b\x7d", Mock.node, Framework.stub .jest, Framework.stub .vitest].contains s
  then some true
  else none

/-- The truth value of an expression. -/
def truth? (s : String) : Option Bool :=
  match text? s.toList with
  | some t => some !t.isEmpty
  | none => (numberTruth? s.toList).or (wordTruth? s)

/-! ### String literals -/

variable {q c : Char} {s : List Char} {n : Nat}

theorem quotedRest_plain (hq : c ≠ q) (hescape : c ≠ '\\') (hbreak : c ≠ '\n' ∧ c ≠ '\r') :
    Lexeme.quotedRest q (n + 1) (c :: s) = (Lexeme.quotedRest q n s).map (1 + ·) := by
  rw [Lexeme.quotedRest, if_neg hq, if_neg hescape, if_neg (by simp [hbreak])]

theorem quotedRest_escaped (hq : '\\' ≠ q) (h : Lexeme.escape? (c :: s) = some 1) :
    Lexeme.quotedRest q (n + 1) ('\\' :: c :: s) = (Lexeme.quotedRest q n s).map (2 + ·) := by
  rw [Lexeme.quotedRest, if_neg hq, if_pos rfl, h]
  rfl

theorem quotedRest_quote : Lexeme.quotedRest q (n + 1) (q :: s) = some 1 := by
  rw [Lexeme.quotedRest, if_pos rfl]

/-- Whether a character stands for itself in a literal. -/
def IsPlain (q c : Char) : Prop := c ≠ q ∧ c ≠ '\\' ∧ c ≠ '\n' ∧ c ≠ '\r'

theorem quotedRest_of_plain (h : ∀ c ∈ s, IsPlain q c) (hn : s.length < n) :
    Lexeme.quotedRest q n (s ++ [q]) = some (s.length + 1) := by
  induction s generalizing n with
  | nil =>
      obtain ⟨n, rfl⟩ := Nat.exists_eq_add_one_of_ne_zero (Nat.ne_of_gt hn)
      exact quotedRest_quote
  | cons c s ih =>
      obtain ⟨n, rfl⟩ := Nat.exists_eq_add_one_of_ne_zero (Nat.ne_of_gt (Nat.zero_lt_of_lt hn))
      rw [List.forall_mem_cons] at h
      rw [List.cons_append, quotedRest_plain h.1.1 h.1.2.1 h.1.2.2,
        ih h.2 (Nat.lt_of_succ_lt_succ hn), Option.map_some, Nat.add_comm 1, List.length_cons]

/-- The text of a literal that is read to its end. -/
theorem text?_of_rest (hq : q = '\'' ∨ q = '"')
    (h : Lexeme.quotedRest q (s ++ [q]).length (s ++ [q]) = some (s.length + 1)) :
    text? (q :: (s ++ [q])) = some (Text.Escape.decoded s) := by
  have hquote : (q = '"' || q = '\'') = true := by rcases hq with rfl | rfl <;> rfl
  rw [text?, Lexeme.string?, if_pos hquote, h, if_pos, List.tail_cons, List.dropLast_concat]
  rw [Option.map_some, List.length_cons, List.length_append, List.length_singleton, Nat.add_comm 1]

/-- A literal without escapes denotes its content. -/
theorem text?_of_plain (hq : q = '\'' ∨ q = '"') (h : ∀ c ∈ s, IsPlain q c) :
    text? (q :: (s ++ [q])) = some s := by
  rw [text?_of_rest hq (quotedRest_of_plain h (by simp)),
    Text.Escape.decoded_of_plain fun hmem => (h '\\' hmem).2.1 rfl]

/-- A character is quoted by a backslash and one letter that denote it, or stands for itself. -/
theorem encodeChar_cases (c : Char) :
    (∃ x, Text.Quoted.encodeChar c = ['\\', x] ∧ Text.Escape.denoted [x] = [c.toNat] ∧
        ∀ s, Lexeme.escape? (x :: s) = some 1) ∨
      Text.Quoted.encodeChar c = [c] ∧ IsPlain '\'' c := by
  unfold Text.Quoted.encodeChar
  split
  · next h => exact .inl ⟨'\\', rfl, by rw [h]; rfl, fun s => rfl⟩
  · next hback =>
    split
    · next h => exact .inl ⟨'\'', rfl, by rw [h]; rfl, fun s => rfl⟩
    · next hquote =>
      split
      · next h => exact .inl ⟨'n', rfl, by rw [h]; rfl, fun s => rfl⟩
      · next hfeed =>
        split
        · next h => exact .inl ⟨'r', rfl, by rw [h]; rfl, fun s => rfl⟩
        · next hreturn =>
          split
          · next h => exact .inl ⟨'t', rfl, by rw [h]; rfl, fun s => rfl⟩
          · exact .inr ⟨rfl, hquote, hback, hfeed, hreturn⟩

/-- What is quoted reaches to its closing quote, whatever follows. -/
theorem quotedRest_encode (rest : List Char) (hn : (Text.Quoted.encode s).length < n) :
    Lexeme.quotedRest '\'' n (Text.Quoted.encode s ++ '\'' :: rest) =
      some ((Text.Quoted.encode s).length + 1) := by
  induction s generalizing n with
  | nil =>
      obtain ⟨n, rfl⟩ := Nat.exists_eq_add_one_of_ne_zero (Nat.ne_of_gt hn)
      exact quotedRest_quote
  | cons c s ih =>
      obtain ⟨n, rfl⟩ := Nat.exists_eq_add_one_of_ne_zero (Nat.ne_of_gt (Nat.zero_lt_of_lt hn))
      rw [Text.Quoted.encode_cons, List.append_assoc]
      rw [Text.Quoted.encode_cons, List.length_append] at hn
      rcases encodeChar_cases c with ⟨x, hx, -, hescape⟩ | ⟨hx, hplain⟩
      · rw [hx] at hn ⊢
        rw [List.cons_append, List.singleton_append, quotedRest_escaped (by decide) (hescape _),
          ih (by simp at hn; omega), Option.map_some, List.length_append]
        simp
        omega
      · rw [hx] at hn ⊢
        rw [List.singleton_append, quotedRest_plain hplain.1 hplain.2.1 hplain.2.2,
          ih (by simp at hn; omega), Option.map_some, List.length_append]
        simp
        omega

theorem codesFrom_encode (hn : (Text.Quoted.encode s).length ≤ n) :
    Text.Escape.codesFrom n (Text.Quoted.encode s) = s.map Char.toNat := by
  induction s generalizing n with
  | nil => cases n <;> rfl
  | cons c s ih =>
      rw [Text.Quoted.encode_cons] at hn ⊢
      rcases encodeChar_cases c with ⟨x, hx, hdenoted, hescape⟩ | ⟨hx, hplain⟩
      · rw [hx] at hn ⊢
        obtain ⟨n, rfl⟩ := Nat.exists_eq_add_one_of_ne_zero (n := n) (by rintro rfl; simp at hn)
        rw [List.cons_append, List.singleton_append, Text.Escape.codesFrom, if_pos rfl, hescape]
        dsimp only
        rw [Option.getD_some, List.take_succ_cons, List.take_zero, hdenoted, List.drop_one,
          List.tail_cons, ih (by simp at hn; omega), List.map_cons, List.singleton_append]
      · rw [hx] at hn ⊢
        obtain ⟨n, rfl⟩ := Nat.exists_eq_add_one_of_ne_zero (n := n) (by rintro rfl; simp at hn)
        rw [List.singleton_append, Text.Escape.codesFrom, if_neg hplain.2.1,
          ih (by simp at hn; omega), List.map_cons]

/-- What is quoted denotes the text itself. -/
theorem text?_literal (s : String) : text? (Text.literal s).toList = some s.toList := by
  rw [Text.literal, String.toList_ofList, List.cons_append,
    text?_of_rest (.inl rfl) (quotedRest_encode [] (by simp)), Text.Escape.decoded,
    codesFrom_encode (Nat.le_refl _), Text.Escape.chars_map_toNat]

theorem truth?_of_text? {x : String} {t : List Char} (h : text? x.toList = some t) :
    truth? x = some !t.isEmpty := by
  rw [truth?, h]

theorem truth?_literal {s : String} (h : s.toList ≠ []) : truth? (Text.literal s) = some true := by
  rw [truth?_of_text? (text?_literal s), List.isEmpty_eq_false_iff.mpr h]
  rfl

/-! ### Numbers -/

/-- What begins with no quote is no string literal. -/
theorem text?_of_head (h : ∀ c ∈ s.head?, c ≠ '\'' ∧ c ≠ '"') : text? s = none := by
  cases s with
  | nil => rfl
  | cons c s =>
      obtain ⟨hsingle, hdouble⟩ := h c rfl
      rw [text?, Lexeme.string?, if_neg (by simp [hsingle, hdouble])]

theorem text?_numeral (n : Decimal.Numeral) : text? n.chars = none := by
  refine text?_of_head fun c hc => ?_
  have hhead := n.head_unsigned c
  rw [Decimal.Numeral.chars] at hc
  split at hc
  · cases hc
    decide
  · rcases hhead hc with hdigit | rfl
    · constructor <;> rintro rfl <;> exact absurd hdigit (by decide)
    · decide

/-- A numeral that is not padded is true if it is not zero. -/
theorem truth?_numeral {n : Decimal.Numeral} (h : isPadded n.unsigned = false) :
    truth? (String.ofList n.chars) = (Decimal.Binary.read? n.chars).map fun b => !b.isZero := by
  have hnumber : numberTruth? n.chars = (Decimal.Binary.read? n.chars).map fun b => !b.isZero := by
    rw [numberTruth?, n.splitSign_chars, n.read?_chars, Option.map_map]
    dsimp only
    rw [if_neg (n.unsigned_ne_name (by decide)).1, if_neg (n.unsigned_ne_name (by decide)).1, h,
      if_neg Bool.false_ne_true]
    rfl
  obtain ⟨b, hb⟩ := Option.isSome_iff_exists.mp n.isSome_read?
  rw [truth?, String.toList_ofList, text?_numeral]
  dsimp only
  rw [hnumber, hb]
  rfl

end Expression

/-! ### Forced values -/

namespace Mock

open Expression

theorem truth?_absent : truth? absent = some false := by decide +kernel

theorem truth?_truth (b : Bool) : truth? (truth b) = some b := by cases b <;> decide +kernel

theorem truth?_node : truth? node = some true := by decide +kernel

theorem truth?_stub (f : Framework) : truth? f.stub = some true := by cases f <;> decide +kernel

/-- The literal of its type that is kept as the value of a prop. -/
def keptLiteral? (p : ComponentProp) : Option String :=
  if p.name = "children" then none
  else
    match TypeShape.classify p.type with
    | .string literal => literal
    | .number literal => literal
    | _ => none

/-- What is forced of a prop. -/
structure Forces (f : Framework) (p : ComponentProp) : Prop where
  /-- It is made falsy. -/
  falsy : truth? (forced f p false) = some false
  /-- It is made truthy if no literal is kept. -/
  made : keptLiteral? p = none → truth? (forced f p true) = some true
  /-- A literal that is kept makes it truthy if it is true itself, an empty text in single quotes,
  or the digit zero. -/
  kept : ∀ x, keptLiteral? p = some x →
    (truth? (forced f p true) = some true ↔ truth? x = some true ∨ x = "''" ∨ x = "0")
  /-- So a text without escapes does if it is not empty, or stands in single quotes. -/
  text : ∀ q s, (q = '\'' ∨ q = '"') → (∀ c ∈ s, IsPlain q c) →
    keptLiteral? p = some (String.ofList (q :: (s ++ [q]))) →
    (truth? (forced f p true) = some true ↔ s ≠ [] ∨ q = '\'')
  /-- A number does if its value is not zero, or it is the digit zero. -/
  number : ∀ n : Decimal.Numeral, isPadded n.unsigned = false →
    keptLiteral? p = some (String.ofList n.chars) →
    (truth? (forced f p true) = some true ↔
      (∃ b, Decimal.Binary.read? n.chars = some b ∧ b.isZero = false) ∨ n.chars = ['0'])

variable {f : Framework} {p : ComponentProp} {x : String}

theorem truth?_fallback (shape : TypeShape) :
    truth? (fallback f p shape) = some true ∨ fallback f p shape = absent := by
  unfold fallback
  split
  · exact .inl (truth?_stub f)
  · split
    · exact .inl (by decide +kernel)
    · exact .inl (by decide +kernel)
    · split
      · exact .inl (truth?_literal (by rw [String.toList_append]; exact
          List.append_ne_nil_of_right_ne_nil _ (by decide)))
      · exact .inr rfl

/-- A value that is made is true, or stands for no value. -/
theorem truth?_value (h : keptLiteral? p = none) :
    truth? (value f p) = some true ∨ value f p = absent := by
  unfold keptLiteral? at h
  unfold value
  split
  · exact .inl truth?_node
  · next hname =>
    rw [if_neg hname] at h
    cases hshape : TypeShape.classify p.type with
    | node => exact .inl truth?_node
    | string literal =>
        rw [hshape] at h
        subst h
        exact .inl (truth?_literal (by rw [String.toList_append]; exact
          List.append_ne_nil_of_left_ne_nil (by decide) _))
    | number literal =>
        rw [hshape] at h
        subst h
        exact .inl (show truth? "42" = some true by decide +kernel)
    | boolean => exact .inl (truth?_truth true)
    | unknown =>
        dsimp only
        split
        · exact .inl (truth?_truth true)
        · exact truth?_fallback _
    | callback => exact truth?_fallback _
    | array => exact truth?_fallback _
    | object => exact truth?_fallback _

/-- A literal that is kept is the value, and the prop is passed as no truth value. -/
theorem value_of_kept (hb : p.isBoolean = true → p.type = "boolean")
    (h : keptLiteral? p = some x) :
    isBooleanLike p = false ∧ value f p = x ∧ x ≠ absent := by
  have hkept : p.name ≠ "children" ∧ (TypeShape.classify p.type = .string (some x) ∨
      TypeShape.classify p.type = .number (some x)) := by
    unfold keptLiteral? at h
    split at h
    · cases h
    · next hname =>
      refine ⟨hname, ?_⟩
      split at h
      · next hshape => exact .inl (h ▸ hshape)
      · next hshape => exact .inr (h ▸ hshape)
      · cases h
  obtain ⟨hname, hshape⟩ := hkept
  have hboolean : p.isBoolean = false := by
    refine Bool.eq_false_iff.mpr fun htrue => ?_
    have htype : TypeShape.classify p.type = .boolean := by
      rw [hb htrue]
      decide +kernel
    rcases hshape with hshape | hshape <;> rw [htype] at hshape <;> cases hshape
  refine ⟨?_, ?_, ?_⟩
  · rw [isBooleanLike, hboolean, Bool.false_or]
    rcases hshape with hshape | hshape <;> rw [hshape]
  · rw [value, if_neg hname]
    rcases hshape with hshape | hshape <;> rw [hshape]
  · rintro rfl
    rcases hshape with hshape | hshape
    · obtain ⟨m, -, hm⟩ := TypeShape.exists_member hshape TypeShape.noConfusion
      have := (TypeText.shapeOfMember_literal m absent).1 hm
      exact absurd this (by decide)
    · obtain ⟨m, -, hm⟩ := TypeShape.exists_member hshape TypeShape.noConfusion
      have := (TypeText.shapeOfMember_literal m absent).2 hm
      exact absurd this (by decide +kernel)

theorem forced_of_kept (hb : p.isBoolean = true → p.type = "boolean")
    (h : keptLiteral? p = some x) :
    forced f p true = if x = "''" ∨ x = "0" then truth true else x := by
  obtain ⟨hlike, hvalue, hne⟩ := value_of_kept (f := f) hb h
  have hfalsy : isFalsyDefault x = true ↔ x = "''" ∨ x = "0" := by
    rw [isFalsyDefault, decide_eq_false hne, Bool.false_or, Bool.or_eq_true, decide_eq_true_eq,
      decide_eq_true_eq]
  rw [forced, hlike, hvalue, if_neg Bool.false_ne_true, if_neg (by decide)]
  exact if_congr hfalsy rfl rfl

theorem truth?_forced_of_kept (hb : p.isBoolean = true → p.type = "boolean")
    (h : keptLiteral? p = some x) :
    truth? (forced f p true) = some true ↔ truth? x = some true ∨ x = "''" ∨ x = "0" := by
  rw [forced_of_kept hb h]
  split
  · next hx => exact iff_of_true (truth?_truth true) (.inr hx)
  · next hx => exact (or_iff_left hx).symm

theorem forces_of_boolean (hb : p.isBoolean = true → p.type = "boolean") : Forces f p where
  falsy := by
    unfold forced
    split
    · exact truth?_truth false
    · exact truth?_absent
  made h := by
    unfold forced
    split
    · exact truth?_truth true
    · rw [if_neg (by decide)]
      split
      · exact truth?_truth true
      · next hfalsy =>
        refine (truth?_value h).resolve_right fun habsent => hfalsy ?_
        rw [habsent]
        decide
  kept x h := truth?_forced_of_kept hb h
  text q s hq hs h := by
    have htext : truth? (String.ofList (q :: (s ++ [q]))) = some !s.isEmpty :=
      truth?_of_text? (by rw [String.toList_ofList]; exact text?_of_plain hq hs)
    rw [truth?_forced_of_kept hb h, htext]
    cases s with
    | nil => rcases hq with rfl | rfl <;> decide
    | cons c s => exact iff_of_true (.inl rfl) (.inl (List.cons_ne_nil c s))
  number n hn h := by
    have hquoted : String.ofList n.chars ≠ "''" := fun hx => by
      have hquotes : n.chars = ['\'', '\''] := String.ofList_inj.mp hx
      have htext := text?_numeral n
      rw [hquotes] at htext
      exact absurd htext (by decide)
    have hzero : String.ofList n.chars = "0" ↔ n.chars = ['0'] := String.ofList_inj
    rw [truth?_forced_of_kept hb h, truth?_numeral hn, or_iff_right hquoted, hzero]
    refine or_congr ?_ Iff.rfl
    rw [Option.map_eq_some_iff]
    exact exists_congr fun b => and_congr_right fun _ => by rw [Bool.not_eq_true']

/-- Every prop of a component of a source is forced as `Forces` says. -/
theorem forces {modules : Modules} {src : Source} {c : Component}
    (h : c ∈ Analysis.components modules src) {p : ComponentProp} (hp : p ∈ c.props)
    (f : Framework) : Forces f p :=
  forces_of_boolean fun hb => (Analysis.isAnalyzed h).type_of_isBoolean hp hb

/-- A prop whose type begins with a literal that is true. -/
theorem forces_size :
    ∃ c ∈ Suite.sourceComponents "export const A=(\x7bsize\x7d:\x7bsize:'sm'|\"\"\x7d)=><p>a</p>",
      ∃ p ∈ c.props, keptLiteral? p = some "'sm'" ∧ Forces .jest p := by
  have h : ∃ c ∈ Suite.sourceComponents
        "export const A=(\x7bsize\x7d:\x7bsize:'sm'|\"\"\x7d)=><p>a</p>",
      ∃ p ∈ c.props, keptLiteral? p = some "'sm'" := by
    decide +kernel
  obtain ⟨c, hc, p, hp, hkept⟩ := h
  obtain ⟨src, _, hmem⟩ := Suite.mem_sourceComponents hc
  exact ⟨c, hc, p, hp, hkept, forces hmem hp .jest⟩

/-- A prop whose type begins with an empty text in double quotes, and one that is made truthy since
its quotes are single. -/
theorem unforced :
    ∃ c ∈ Suite.sourceComponents
        "export const A=(\x7bsize,kind\x7d:\x7bsize:\"\",kind:''\x7d)=><p>a</p>",
      ∃ size ∈ c.props, ∃ kind ∈ c.props,
        forced .jest size true = "\"\"" ∧ truth? (forced .jest size true) = some false ∧
        forced .jest kind true = "true" ∧ truth? (forced .jest kind true) = some true := by
  decide +kernel

end Mock

end Trellis
