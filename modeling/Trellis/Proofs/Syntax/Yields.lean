import Trellis.Proofs.Syntax.Lexemes
import Trellis.Syntax.Grammar.Basic

/-! # What readers read

Properties of all that a reader may read, wherever in a source it is started.

* `Reader.Yields` says that all that a reader reads has a property. There is one lemma for each way of
  putting readers together.
* `Span.text` is the text of a stretch of a source. `Reader.yields_word` and `Reader.yields_lexeme`: what
  is read as a word is a word there, and what is read by a lexer is read by it there. -/

namespace Trellis.Syntax

variable {source : List Char} {α β : Type}

/-- The text of a stretch of a source. -/
def Span.text (source : List Char) (s : Span) : List Char :=
  (source.drop s.start).take (s.stop - s.start)

namespace Position

theorem place_advance (p : Position source) (n : Nat) :
    (p.advance n).place = p.place + min n p.rest.length := by
  induction n generalizing p with
  | zero => simp [advance]
  | succ n ih =>
      rw [advance]
      split
      · next hrest => simp [hrest]
      · next c rest hrest =>
        have hlength : p.rest.length = rest.length + 1 := by rw [hrest, List.length_cons]
        rw [ih, hlength]
        dsimp only
        omega

end Position

namespace Reader

/-- Whether all that a reader reads has a property. -/
def Yields (r : Reader source α) (P : α → Prop) : Prop := ∀ p a q, r p = some (a, q) → P a

variable {r r' : Reader source α} {f : α → Reader source β} {P P' : α → Prop} {Q : β → Prop}
  {kind : Kind}

/-! ### Readers put together -/

theorem Yields.mono (h : Yields r P) (hP : ∀ a, P a → P' a) : Yields r P' :=
  fun p a q hr => hP a (h p a q hr)

theorem yields_pure {a : α} (h : P a) : Yields (pure a : Reader source α) P := by
  intro p b q hr
  cases hr
  exact h

theorem yields_failure : Yields (failure : Reader source α) P := by
  intro p a q hr
  cases hr

theorem exists_of_bind {p q : Position source} {b : β} (h : (r >>= f) p = some (b, q)) :
    ∃ a p', r p = some (a, p') ∧ f a p' = some (b, q) := by
  obtain ⟨⟨a, p'⟩, ha, hb⟩ := Option.bind_eq_some_iff.mp h
  exact ⟨a, p', ha, hb⟩

theorem Yields.bind (h : Yields r P) (hf : ∀ a, P a → Yields (f a) Q) : Yields (r >>= f) Q := by
  intro p b q hr
  obtain ⟨a, p', ha, hb⟩ := exists_of_bind hr
  exact hf a (h p a p' ha) p' b q hb

theorem yields_bind (hf : ∀ a, Yields (f a) Q) : Yields (r >>= f) Q :=
  Yields.bind (P := fun _ => True) (fun _ _ _ _ => trivial) fun a _ => hf a

theorem Yields.map {g : α → β} (h : Yields r P) (hg : ∀ a, P a → Q (g a)) : Yields (g <$> r) Q := by
  rw [map_eq_pure_bind]
  exact h.bind fun a ha => yields_pure (hg a ha)

theorem Yields.orElse (h : Yields r P) (h' : Yields r' P) : Yields (r <|> r') P := by
  intro p a q hr
  have hor : (r p <|> r' p) = some (a, q) := hr
  cases hrp : r p with
  | none =>
      rw [hrp] at hor
      exact h' p a q hor
  | some x =>
      rw [hrp] at hor
      cases hor
      exact h p a q hrp

theorem yields_ite {b : Prop} [Decidable b] (h : Yields r P) (h' : Yields r' P) :
    Yields (if b then r else r') P := by
  split
  · exact h
  · exact h'

theorem Yields.optional (h : Yields r P) : Yields (optional r) fun o => ∀ a ∈ o, P a := by
  refine Yields.orElse (h.map fun a ha => ?_) (yields_pure ?_)
  · rintro _ ⟨⟩
    exact ha
  · rintro _ ⟨⟩

theorem Yields.manyFuel (h : Yields r P) (n : Nat) :
    Yields (manyFuel r n) fun as => ∀ a ∈ as, P a := by
  induction n with
  | zero => exact yields_pure fun a ha => absurd ha List.not_mem_nil
  | succ n ih =>
      rw [Reader.manyFuel]
      refine Yields.bind h.optional fun o ho => ?_
      cases o with
      | none => exact yields_pure fun a ha => absurd ha List.not_mem_nil
      | some a =>
          refine Yields.bind ih fun as has => yields_pure ?_
          exact List.forall_mem_cons.mpr ⟨ho a rfl, has⟩

theorem Yields.many (h : Yields r P) : Yields (many r) fun as => ∀ a ∈ as, P a :=
  yields_bind fun n => h.manyFuel n

theorem Yields.maybe {r : Reader source Draft} {P : Draft → Prop} (h : Yields r P) :
    Yields (maybe r) fun ds => ∀ d ∈ ds, P d := by
  refine Yields.bind h.optional fun o ho => yields_pure fun d hd => ?_
  exact ho d (Option.mem_toList.mp hd)

theorem Yields.list1 {r : Reader source Draft} {P : Draft → Prop} (h : Yields r P) :
    Yields (list1 r) fun ds => ∀ d ∈ ds, P d := by
  refine Yields.bind h fun d hd => ?_
  refine Yields.bind (Yields.many (yields_bind fun _ => h)) fun ds hds => yields_pure ?_
  exact List.forall_mem_cons.mpr ⟨hd, hds⟩

theorem Yields.list {r : Reader source Draft} {P : Draft → Prop} (h : Yields r P) :
    Yields (list r) fun ds => ∀ d ∈ ds, P d := by
  refine Yields.orElse (Yields.bind h.list1 fun ds hds => ?_) (yields_pure ?_)
  · exact yields_bind fun _ => yields_pure hds
  · exact fun d hd => absurd hd List.not_mem_nil

/-! ### Nodes -/

/-- A node that is built has its kind, no label, and the parts that were read. -/
theorem yields_build {r : Reader source (List Draft)} {P : List Draft → Prop} {Q : Draft → Prop}
    (h : Yields r P) (hQ : ∀ d, d.kind = kind → d.label = .none → P d.children → Q d) :
    Yields (build kind r) Q := by
  refine yields_bind fun _ => yields_bind fun p => Yields.bind h fun ds hds => ?_
  exact yields_bind fun q => yields_pure (hQ _ rfl rfl hds)

theorem yields_build_kind {Q : Draft → Prop} (r : Reader source (List Draft))
    (hQ : ∀ d, d.kind = kind → d.label = .none → Q d) : Yields (build kind r) Q :=
  yields_build (P := fun _ => True) (fun _ _ _ _ => trivial) fun d hk hl _ => hQ d hk hl

theorem yields_extend {Q : Draft → Prop} (first : Draft) (r : Reader source (List Draft))
    (hQ : ∀ d, d.kind = kind → d.label = .none → Q d) : Yields (extend kind first r) Q :=
  yields_bind fun _ => yields_bind fun _ => yields_pure (hQ _ rfl rfl)

/-! ### Lexemes -/

/-- What is taken is what is left up to there. -/
theorem take_eq_some {p q : Position source} {n : Nat} {s : Span} (hn : n ≤ p.rest.length)
    (h : take n p = some (s, q)) : s.text source = p.rest.take n := by
  cases h
  rw [Span.text, p.place_advance, Nat.min_eq_left hn, Nat.add_sub_cancel_left, ← p.rest_eq]

/-- What is taken as far as a lexer reads is read by it in its place. -/
theorem exists_length_of_take {length? : List Char → Option Nat} {p q : Position source} {n : Nat}
    {s : Span} (hlength : ∀ s n, length? s = some n → n ≤ s.length) (hn : length? p.rest = some n)
    (h : take n p = some (s, q)) :
    ∃ t, length? (s.text source ++ t) = some (s.text source).length := by
  have hle := hlength _ n hn
  refine ⟨p.rest.drop n, ?_⟩
  rw [take_eq_some hle h, List.take_append_drop, List.length_take_of_le hle]
  exact hn

/-- What is read by a lexer is read by it in its place. -/
theorem yields_lexeme (kind : Kind) {length? : List Char → Option Nat}
    (hlength : ∀ s n, length? s = some n → n ≤ s.length) :
    Yields (lexeme kind length? : Reader source Draft) fun d => d.kind = kind ∧ d.label = .none ∧
      ∃ t, length? (d.span.text source ++ t) = some (d.span.text source).length := by
  refine yields_bind fun _ => ?_
  intro p d q hr
  obtain ⟨s, p', hs, hr⟩ := exists_of_bind hr
  cases hs
  cases hn : length? p.rest with
  | none =>
      rw [hn] at hr
      cases hr
  | some n =>
      rw [hn] at hr
      obtain ⟨span, p', htake, hr⟩ := exists_of_bind hr
      cases hr
      exact ⟨rfl, rfl, exists_length_of_take hlength hn htake⟩

/-- What is read as a word is a word in its place. -/
theorem yields_word : Yields (word : Reader source (String × Span)) fun x =>
    Lexeme.IsWord (x.2.text source) := by
  refine yields_bind fun _ => ?_
  intro p x q hr
  obtain ⟨s, p', hs, hr⟩ := exists_of_bind hr
  cases hs
  cases hn : Lexeme.word? p.rest with
  | none =>
      rw [hn] at hr
      cases hr
  | some n =>
      rw [hn] at hr
      obtain ⟨span, p', htake, hr⟩ := exists_of_bind hr
      cases hr
      obtain ⟨t, ht⟩ := exists_length_of_take (fun _ _ => Lexeme.le_of_word?) hn htake
      exact Lexeme.isWord_of_word? ht

theorem yields_name (kind : Kind) : Yields (name kind : Reader source Draft) fun d =>
    d.kind = kind ∧ d.label = .none ∧ Lexeme.IsWord (d.span.text source) :=
  Yields.bind yields_word fun _ h => yields_pure ⟨rfl, rfl, h⟩

end Reader

end Trellis.Syntax
