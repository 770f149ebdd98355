import Trellis.Proofs.Suite.Forced
import Trellis.Proofs.Syntax.Lexemes

/-! # Reading imports

A reader for import declarations that bind names, with the tokens of the grammar.

* `Import.tokens?` gives the tokens of a text, `Import.read?` the declaration that they are: the names
  that it binds with what each of them stands for, and the literal of the module.
* `Import.Scans` says that a text gives some tokens before anything that does not go on with a word.
  It is closed under the ways in which such declarations are written.
* `Import.tokens?_of_plain` and `Import.plain_of_declaration?`: a text in single quotes at the end of a
  declaration is the literal of that text if each of its characters stands for itself, and no other
  text is. -/

namespace Trellis

open Syntax Syntax.Lexeme

/-! ### Reading imports -/

namespace Import

/-- A token of an import declaration. -/
inductive Token where
  /-- A word. -/
  | word (text : String)
  /-- A quoted text, with its quotes. -/
  | quoted (text : String)
  /-- A brace, a comma or a semicolon. -/
  | mark (c : Char)
  deriving DecidableEq, Repr

/-- The text of a token. -/
def Token.chars : Token → List Char
  | word text | quoted text => text.toList
  | mark c => [c]

/-- The token at the start of a text, with its length. -/
def token? (s : List Char) : Option (Token × Nat) :=
  match word? s with
  | some n => some (.word (String.ofList (s.take n)), n)
  | none =>
    match string? s with
    | some n => some (.quoted (String.ofList (s.take n)), n)
    | none =>
      match s with
      | c :: _ => if ['\x7b', '\x7d', ',', ';'].contains c then some (.mark c, 1) else none
      | [] => none

/-- The tokens of a text; `n` bounds its length. -/
def tokensFuel : Nat → List Char → Option (List Token)
  | _, [] => some []
  | 0, _ :: _ => none
  | n + 1, c :: s =>
    if isSpace c then tokensFuel n s
    else
      match token? (c :: s) with
      | some (t, k) => (tokensFuel n (s.drop (k - 1))).map (t :: ·)
      | none => none

/-- The tokens of a text. -/
def tokens? (s : List Char) : Option (List Token) := tokensFuel s.length s

/-- What a name stands for in a module. -/
inductive Origin where
  /-- What the module stands for. -/
  | default
  /-- What the module exports under a name, which is a word or a quoted text. -/
  | named (exported : String)
  deriving DecidableEq, Repr

/-- The words that name nothing in a module. -/
def reserved : List String :=
  ["arguments", "await", "break", "case", "catch", "class", "const", "continue", "debugger",
    "default", "delete", "do", "else", "enum", "eval", "export", "extends", "false", "finally", "for",
    "function", "if", "implements", "import", "in", "instanceof", "interface", "let", "new", "null",
    "package", "private", "protected", "public", "return", "static", "super", "switch", "this",
    "throw", "true", "try", "typeof", "var", "void", "while", "with", "yield"]

/-- A name with what it stands for, if it may be one. -/
def binding? (name : String) (origin : Origin) : Option (String × Origin) :=
  if reserved.contains name then none else some (name, origin)

/-- The name of an export. -/
def Token.exported? : Token → Option String
  | word text | quoted text => some text
  | mark _ => none

/-- A name in braces: an export under its own name or under another one. -/
def item? : List Token → Option (String × Origin)
  | [.word name] => binding? name (.named name)
  | [e, .word w, .word name] =>
    if w = "as" then e.exported?.bind fun exported => binding? name (.named exported) else none
  | _ => none

/-- The names in braces, given with the closing brace. -/
def braces? (ts : List Token) : Option (List (String × Origin)) :=
  if ts.getLast? = some (.mark '\x7d') then
    if ts.dropLast.isEmpty then some [] else (ts.dropLast.splitOn (.mark ',')).mapM item?
  else none

/-- The names that an import binds. -/
def clause? : List Token → Option (List (String × Origin))
  | .mark c :: ts => if c = '\x7b' then braces? ts else none
  | [.word name] => (binding? name .default).map ([·])
  | .word name :: .mark c :: .mark d :: ts =>
    if c = ',' ∧ d = '\x7b' then do return (← binding? name .default) :: (← braces? ts) else none
  | _ => none

/-- What an import declaration says. -/
structure Declaration where
  /-- The names that it binds, each with what it stands for. -/
  bindings : List (String × Origin)
  /-- The literal of the module. -/
  module : String
  deriving DecidableEq, Repr

/-- The import declaration that some tokens are. -/
def declaration? : List Token → Option Declaration
  | .word i :: ts =>
    match ts.reverse with
    | .mark c :: .quoted m :: .word f :: clause =>
      if i = "import" ∧ f = "from" ∧ c = ';' then
        (clause? clause.reverse).map fun bs => ⟨bs, m⟩
      else none
    | _ => none
  | _ => none

/-- Reads an import declaration. -/
def read? (s : String) : Option Declaration := (tokens? s.toList).bind declaration?

/-- Whether a declaration imports from the module with a specifier. -/
def Declaration.Names (d : Declaration) (specifier : String) : Prop :=
  Expression.text? d.module.toList = some specifier.toList

/-! ### Tokens -/

variable {s x y : List Char} {ts us : List Token} {t : Token} {c : Char} {n m k : Nat}

theorem tokensFuel_congr (hn : s.length ≤ n) (hm : s.length ≤ m) :
    tokensFuel n s = tokensFuel m s := by
  induction n generalizing s m with
  | zero =>
      rw [List.length_eq_zero_iff.mp (Nat.le_zero.mp hn)]
      cases m <;> rfl
  | succ n ih =>
      cases s with
      | nil => cases m <;> rfl
      | cons c s =>
          rw [List.length_cons] at hn hm
          obtain ⟨m, rfl⟩ := Nat.exists_eq_add_one_of_ne_zero (Nat.ne_of_gt (Nat.zero_lt_of_lt hm))
          have hstep (k : Nat) : tokensFuel n (s.drop k) = tokensFuel m (s.drop k) := by
            have hdrop : (s.drop k).length ≤ s.length := by
              rw [List.length_drop]
              omega
            exact ih (by omega) (by omega)
          rw [tokensFuel, tokensFuel, show tokensFuel n s = tokensFuel m s from hstep 0]
          congr 1
          cases token? (c :: s) with
          | none => rfl
          | some x =>
              dsimp only
              rw [hstep]

theorem tokens?_space (hc : isSpace c = true) (s : List Char) : tokens? (c :: s) = tokens? s := by
  rw [tokens?, List.length_cons, tokensFuel, if_pos hc, tokens?]

theorem tokens?_cons (hc : isSpace c = false) (h : token? (c :: s) = some (t, k + 1)) :
    tokens? (c :: s) = (tokens? (s.drop k)).map (t :: ·) := by
  have hdrop : (s.drop k).length ≤ s.length := by
    rw [List.length_drop]
    omega
  rw [tokens?, List.length_cons, tokensFuel, hc, if_neg Bool.false_ne_true, h]
  dsimp only
  rw [Nat.add_sub_cancel, tokensFuel_congr hdrop (Nat.le_refl _), tokens?]

/-- A token is read at the start of a text that it begins. -/
theorem tokens?_append (hc : ∀ c ∈ x.head?, isSpace c = false) (hne : x ≠ [])
    (h : token? (x ++ s) = some (t, x.length)) : tokens? (x ++ s) = (tokens? s).map (t :: ·) := by
  cases x with
  | nil => exact absurd rfl hne
  | cons c x =>
      rw [List.cons_append] at h ⊢
      rw [tokens?_cons (hc c rfl) h, List.drop_left]

theorem tokens?_word {w : String} (hw : IsWord w.toList) (hs : EndsWord s) :
    tokens? (w.toList ++ s) = (tokens? s).map (.word w :: ·) := by
  refine tokens?_append hw.head hw.ne_nil ?_
  unfold token?
  rw [hw.word?_append hs]
  dsimp only
  rw [List.take_left, String.ofList_toList]

theorem tokens?_quoted {q : String} (hq : string? (q.toList ++ s) = some q.toList.length) :
    tokens? (q.toList ++ s) = (tokens? s).map (.quoted q :: ·) := by
  obtain ⟨hword, hlength⟩ := word?_of_string? hq
  have hne : q.toList ≠ [] := List.length_pos_iff.mp (by omega)
  refine tokens?_append (fun c hc => ?_) hne ?_
  · have hquote := head_of_string? hq c (by rw [List.head?_append_of_ne_nil _ hne]; exact hc)
    rcases hquote with rfl | rfl <;> decide
  · unfold token?
    rw [hword, hq]
    dsimp only
    rw [List.take_left, String.ofList_toList]

theorem tokens?_mark (hc : c ∈ ['\x7b', '\x7d', ',', ';']) (s : List Char) :
    tokens? (c :: s) = (tokens? s).map (.mark c :: ·) := by
  simp only [List.mem_cons, List.not_mem_nil, or_false] at hc
  rcases hc with rfl | rfl | rfl | rfl <;> exact tokens?_cons (k := 0) (by decide) rfl

/-- Whether a text gives some tokens before anything that does not go on with a word. -/
def Scans (x : List Char) (ts : List Token) : Prop :=
  ∀ s, EndsWord s → tokens? (x ++ s) = (tokens? s).map (ts ++ ·)

theorem endsWord_cons (hc : c ≠ '\\' ∧ isWordChar c = false) (s : List Char) : EndsWord (c :: s) := by
  rintro _ ⟨⟩
  exact hc

theorem scans_nil : Scans [] [] := fun s _ => by simp

theorem scans_word {w : String} (hw : IsWord w.toList) : Scans w.toList [.word w] :=
  fun _ hs => tokens?_word hw hs

theorem scans_quoted {q : String} (hq : IsQuoted q.toList) : Scans q.toList [.quoted q] :=
  fun s _ => tokens?_quoted (hq.string?_append s)

theorem Scans.mark (hx : Scans x ts) (hc : c ∈ ['\x7b', '\x7d', ',', ';']) :
    Scans (c :: x) (.mark c :: ts) := by
  intro s hs
  rw [List.cons_append, tokens?_mark hc, hx s hs, Option.map_map]
  rfl

theorem Scans.space (hx : Scans x ts) : Scans (' ' :: x) ts := by
  intro s hs
  rw [List.cons_append, tokens?_space (by decide), hx s hs]

theorem Scans.append (hx : Scans x ts) (hy : Scans y us) (hends : EndsWord y) (hne : y ≠ []) :
    Scans (x ++ y) (ts ++ us) := by
  intro s hs
  have hends' : EndsWord (y ++ s) := by
    rw [EndsWord, List.head?_append_of_ne_nil _ hne]
    exact hends
  rw [List.append_assoc, hx _ hends', hy s hs, Option.map_map]
  simp only [Function.comp_def, List.append_assoc]

/-- What stands behind a word goes on with a blank. -/
theorem Scans.then_space (hx : Scans x ts) (hy : Scans y us) : Scans (x ++ ' ' :: y) (ts ++ us) :=
  hx.append hy.space (endsWord_cons (by decide) _) (List.cons_ne_nil _ _)

/-! ### What is read -/

/-- A token is what stands at the start of the text. -/
theorem chars_of_token? (h : token? s = some (t, k)) : t.chars = s.take k ∧ 0 < k := by
  unfold token? at h
  split at h
  · next n hword =>
    cases h
    exact ⟨String.toList_ofList, word?_pos hword⟩
  · split at h
    · next n hstring =>
      cases h
      exact ⟨String.toList_ofList, by have := (word?_of_string? hstring).2; omega⟩
    · split at h
      · split at h
        · cases h
          exact ⟨rfl, Nat.one_pos⟩
        · cases h
      · cases h

/-- The tokens of a text stand in it one after another, and none of them is empty. -/
theorem sublist_of_tokens? (h : tokens? s = some ts) :
    (ts.flatMap Token.chars).Sublist s ∧ ∀ t ∈ ts, t.chars ≠ [] := by
  unfold tokens? at h
  generalize s.length = n at h
  induction n generalizing s ts with
  | zero =>
      cases s with
      | nil =>
          cases h
          exact ⟨.slnil, nofun⟩
      | cons c s => cases h
  | succ n ih =>
      cases s with
      | nil =>
          cases h
          exact ⟨.slnil, nofun⟩
      | cons c s =>
          rw [tokensFuel] at h
          split at h
          · exact ⟨(ih h).1.cons c, (ih h).2⟩
          · split at h
            · next t k htoken =>
              obtain ⟨us, hus, rfl⟩ := Option.map_eq_some_iff.mp h
              obtain ⟨hchars, hpos⟩ := chars_of_token? htoken
              obtain ⟨k, rfl⟩ := Nat.exists_eq_add_one_of_ne_zero (Nat.ne_of_gt hpos)
              rw [Nat.add_sub_cancel] at hus
              obtain ⟨hsub, hne⟩ := ih hus
              refine ⟨?_, List.forall_mem_cons.mpr ⟨by rw [hchars]; exact nofun, hne⟩⟩
              rw [List.flatMap_cons, hchars, List.take_succ_cons, List.cons_append]
              refine List.Sublist.cons_cons c ?_
              conv => rhs; rw [← List.take_append_drop k s]
              exact hsub.append_left (s.take k)
            · cases h

/-- The tokens of an import declaration. -/
theorem declaration?_eq_some_iff {d : Declaration} : declaration? ts = some d ↔
    ∃ clause, clause? clause = some d.bindings ∧
      ts = .word "import" :: (clause ++ [.word "from", .quoted d.module, .mark ';']) := by
  constructor
  · intro h
    unfold declaration? at h
    split at h
    · next i ts =>
      split at h
      · next c m f clause hreverse =>
        split at h
        · next hwords =>
          obtain ⟨rfl, rfl, rfl⟩ := hwords
          obtain ⟨bs, hbs, rfl⟩ := Option.map_eq_some_iff.mp h
          refine ⟨clause.reverse, hbs, ?_⟩
          rw [← List.reverse_reverse ts, hreverse]
          simp
        · cases h
      · cases h
    · cases h
  · rintro ⟨clause, hclause, rfl⟩
    unfold declaration?
    simp [hclause]

/-- A declaration ends in the literal of its module and a semicolon. -/
theorem suffix_of_declaration? {d : Declaration}
    (h : declaration? (.word "import" :: (us ++ .word "from" :: ts)) = some d) :
    [.quoted d.module, .mark ';'] <:+ ts := by
  obtain ⟨clause, -, hlist⟩ := declaration?_eq_some_iff.mp h
  have hlist := List.tail_eq_of_cons_eq hlist
  have hts : .word "from" :: ts <:+ us ++ .word "from" :: ts := List.suffix_append _ _
  rw [hlist] at hts
  have hend := List.suffix_append clause [.word "from", .quoted d.module, .mark ';']
  obtain hle | hle := List.suffix_or_suffix_of_suffix hend hts
  · obtain heq | htail := List.suffix_cons_iff.mp hle
    · cases heq
      exact List.suffix_refl _
    · exact (List.suffix_cons _ _).trans htail
  · simp only [List.suffix_cons_iff, List.cons.injEq, List.suffix_nil, reduceCtorEq, true_and,
      false_and, or_false] at hle
    exact hle ▸ List.suffix_refl _

/-! ### The literal of a module -/

/-- A text between quotes that close it, and without a backslash, stands for itself. -/
theorem plain_of_quotedRest {q : Char} (h : quotedRest q n (x ++ [q]) = some (x.length + 1))
    (hback : '\\' ∉ x) : ∀ c ∈ x, Expression.IsPlain q c := by
  induction x generalizing n with
  | nil => nofun
  | cons c x ih =>
      obtain ⟨hc, hx⟩ := not_or.mp (mt List.mem_cons.mpr hback)
      cases n with
      | zero => cases h
      | succ n =>
          rw [List.cons_append, quotedRest, List.length_cons] at h
          split at h
          · have hlength := Option.some.inj h
            omega
          · next hquote =>
            rw [if_neg (Ne.symm hc)] at h
            split at h
            · cases h
            · next hbreak =>
              obtain ⟨k, hrest, hk⟩ := Option.map_eq_some_iff.mp h
              obtain rfl : k = x.length + 1 := by omega
              refine List.forall_mem_cons.mpr ⟨⟨hquote, Ne.symm hc, ?_⟩, ih hrest hx⟩
              simpa using hbreak

theorem text?_eq_some_iff : Expression.text? s = some x ↔
    IsQuoted s ∧ Text.Escape.decoded s.tail.dropLast = x := by
  rw [Expression.text?, IsQuoted]
  split
  · next h => simp [h]
  · next h => simp [h]

/-- A text between quotes is a literal of that text just if each character stands for itself. -/
theorem text?_quoted_iff {q : Char} (hq : q = '\'' ∨ q = '"') :
    Expression.text? (q :: (x ++ [q])) = some x ↔ ∀ c ∈ x, Expression.IsPlain q c := by
  refine ⟨fun h => ?_, Expression.text?_of_plain hq⟩
  obtain ⟨hquoted, hdecoded⟩ := text?_eq_some_iff.mp h
  rw [List.tail_cons, List.dropLast_concat] at hdecoded
  have hquote : (q = '"' || q = '\'') = true := by rcases hq with rfl | rfl <;> rfl
  rw [IsQuoted, string?, if_pos hquote] at hquoted
  obtain ⟨k, hrest, hk⟩ := Option.map_eq_some_iff.mp hquoted
  rw [List.length_cons, List.length_append, List.length_singleton] at hk
  obtain rfl : k = x.length + 1 := by omega
  refine plain_of_quotedRest hrest fun hback => ?_
  have hlt := Text.Escape.length_decoded_lt hback
  rw [hdecoded] at hlt
  exact Nat.lt_irrefl _ hlt

/-- A literal is longer than what it denotes, by its quotes. -/
theorem length_of_text? (h : Expression.text? s = some x) : x.length + 2 ≤ s.length := by
  obtain ⟨hquoted, rfl⟩ := text?_eq_some_iff.mp h
  have hquotes := (word?_of_string? hquoted).2
  have hdecoded := Text.Escape.length_decoded_le s.tail.dropLast
  rw [List.length_dropLast, List.length_tail] at hdecoded
  omega

/-- The tokens of a text in single quotes whose characters stand for themselves, and of the semicolon
behind it. -/
theorem tokens?_of_plain (h : ∀ c ∈ x, Expression.IsPlain '\'' c) :
    tokens? ('\'' :: (x ++ ['\'', ';'])) =
      some [.quoted (String.ofList ('\'' :: (x ++ ['\'']))), .mark ';'] := by
  have hquoted : IsQuoted (String.ofList ('\'' :: (x ++ ['\'']))).toList := by
    rw [String.toList_ofList]
    exact (text?_eq_some_iff.mp ((text?_quoted_iff (.inl rfl)).mpr h)).1
  have htokens := (scans_quoted hquoted).append (scans_nil.mark (c := ';') (by decide))
    (endsWord_cons (by decide) _) (List.cons_ne_nil _ _) [] nofun
  rw [List.append_nil, String.toList_ofList, List.cons_append, List.append_assoc] at htokens
  exact htokens

/-- A declaration with a text in single quotes names that text only if each of its characters stands
for itself: there is no room for more than one literal without escapes. -/
theorem plain_of_declaration? {d : Declaration}
    (hts : tokens? ('\'' :: (x ++ ['\'', ';'])) = some ts)
    (hd : declaration? (.word "import" :: (us ++ .word "from" :: ts)) = some d)
    (htext : Expression.text? d.module.toList = some x) : ∀ c ∈ x, Expression.IsPlain '\'' c := by
  obtain ⟨front, rfl⟩ := suffix_of_declaration? hd
  obtain ⟨hsub, hne⟩ := sublist_of_tokens? hts
  have hmodule := length_of_text? htext
  have hend : [Token.quoted d.module, .mark ';'].flatMap Token.chars =
      d.module.toList ++ [';'] := rfl
  have hline : '\'' :: (x ++ ['\'', ';']) = '\'' :: (x ++ ['\'']) ++ [';'] := by simp
  rw [List.flatMap_append, hend, hline] at hsub
  have hlength := hsub.length_le
  simp only [List.length_append, List.length_cons, List.length_nil] at hlength
  cases front with
  | nil =>
      have heq : d.module.toList ++ [';'] = '\'' :: (x ++ ['\'']) ++ [';'] :=
        hsub.eq_of_length_le (by simp; omega)
      rw [List.append_cancel_right heq] at htext
      exact (text?_quoted_iff (.inl rfl)).mp htext
  | cons t front =>
      -- one more token than the literal and the semicolon is one character too many
      have hpos := List.length_pos_iff.mpr (hne t List.mem_cons_self)
      rw [List.flatMap_cons, List.length_append] at hlength
      omega

end Import

end Trellis
