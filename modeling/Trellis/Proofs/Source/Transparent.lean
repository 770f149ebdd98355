import Mathlib.Data.Finset.Card
import Mathlib.Data.Finset.Option
import Trellis.Proofs.Batch.Ways
import Trellis.Proofs.Source.Names
import Trellis.Source.Context

/-! # Contexts change nothing

Whatever a context keeps and drops, its answers are those that need no context.

* `Request.answer_eq` says what is answered to a request.
* `Context.Reflects` says that all that is kept stands for texts of a set. If a digest tells these
  texts apart, what is asked about them is answered as without the context (`Context.run_eq`).
* `Context.Lists` says that a tree is kept for each text that was read, and none besides. This holds
  as long as there is room (`Context.Lists.run`).
* `ParseCache.toContext` is the context that a cache amounts to: texts are their own digests, and
  nothing is dropped. -/

namespace Trellis

/-! ### Requests -/

/-- The dialect of a source that may hold components is that of its path. -/
theorem Source.dialectOf_of_componentDialectOf {p : Path} {d : Dialect}
    (h : componentDialectOf p = .ok d) : dialectOf p = .ok d := by
  unfold componentDialectOf at h
  cases hd : dialectOf p with
  | error e =>
      rw [hd] at h
      cases h
  | ok d' =>
      rw [hd] at h
      by_cases hmarkup : d'.admitsMarkup
      · exact (if_pos hmarkup).symm.trans h
      · cases (if_neg hmarkup).symm.trans h

/-- A text that is read at a path has the dialect that was chosen for it. -/
theorem Source.dialect_of_textAt {s : Store} {p : Path} {chosen : Except LoadFault Dialect}
    {d : Dialect} {text : String} (h : chosen.bind (textAt s p) = .ok (d, text)) :
    chosen = .ok d := by
  cases chosen with
  | error e => cases h
  | ok d' =>
      obtain ⟨rfl, -⟩ := textAt_ok h
      rfl

namespace Request

/-- A text is read in the dialect of its path. -/
theorem dialectOf_of_read {r : Request} {d : Dialect} {text : String} (h : r.read = .ok (d, text)) :
    Source.dialectOf r.path = .ok d := by
  cases r with
  | component s p => exact Source.dialectOf_of_componentDialectOf (Source.dialect_of_textAt h)
  | module s p => exact Source.dialect_of_textAt h
  | text p t =>
      rw [read] at h
      rw [path]
      cases hd : Source.dialectOf p with
      | error e =>
          rw [hd] at h
          cases h
      | ok d' =>
          rw [hd] at h
          cases h
          rfl

/-- The answer is what the dialect makes of the text that is read. -/
theorem answer_eq (r : Request) :
    r.answer = r.read.bind fun t => Source.parse r.path t.1 t.2 := by
  cases r with
  | component s p =>
      rw [answer, read, path, Source.loadComponent]
      cases Source.componentDialectOf p with
      | error e => rfl
      | ok d => rfl
  | module s p =>
      rw [answer, read, path, Source.load]
      cases Source.dialectOf p with
      | error e => rfl
      | ok d => rfl
  | text p t =>
      rw [answer, read, path, Source.ofText]
      cases Source.dialectOf p with
      | error e => rfl
      | ok d => rfl

theorem answer_of_error {r : Request} {e : LoadFault} (h : r.read = .error e) :
    r.answer = .error e := by
  rw [answer_eq, h]
  rfl

theorem answer_of_ok {r : Request} {d : Dialect} {text : String} (h : r.read = .ok (d, text)) :
    r.answer = Source.parse r.path d text := by
  rw [answer_eq, h]
  rfl

end Request

/-- The texts that are read for some requests, each with its dialect and once. -/
def textsRead (rs : List Request) : Finset (Dialect × String) :=
  (rs.filterMap (·.read.toOption)).toFinset

theorem textsRead_cons (r : Request) (rs : List Request) :
    textsRead (r :: rs) = r.read.toOption.toFinset ∪ textsRead rs := by
  rw [textsRead, List.filterMap_cons]
  cases r.read.toOption with
  | none => rw [Option.toFinset_none, Finset.empty_union, textsRead]
  | some t => rw [Option.toFinset_some, List.toFinset_cons, textsRead, Finset.insert_eq]

theorem mem_textsRead {rs : List Request} {t : Dialect × String} :
    t ∈ textsRead rs ↔ ∃ r ∈ rs, r.read = .ok t := by
  rw [textsRead, List.mem_toFinset, List.mem_filterMap]
  refine exists_congr fun r => and_congr_right fun _ => ?_
  cases r.read with
  | error e => exact ⟨nofun, nofun⟩
  | ok t' => exact ⟨fun h => congrArg _ (Option.some.inj h), fun h => congrArg _ (Except.ok.inj h)⟩

namespace Context

variable {κ : Type} {digest : String → κ} {capacity : Nat}

theorem drop_none (c : Context κ) : c.drop (.none : Eviction κ capacity) = c := rfl

theorem run_cons [DecidableEq κ] (c : Context κ) (t : Turn κ capacity)
    (ts : List (Turn κ capacity)) :
    c.run digest (t :: ts) =
      ((((c.serve digest t.request).1.drop t.eviction).run digest ts).1,
        (c.serve digest t.request).2 ::
          (((c.serve digest t.request).1.drop t.eviction).run digest ts).2) := rfl

/-! ### What is kept stands for texts -/

/-- Whether all trees of a context are what their dialects make of texts of a set. -/
def Reflects (digest : String → κ) (texts : Set String) (c : Context κ) : Prop :=
  ∀ e ∈ c.entries, ∃ text ∈ texts, e.key.1 = digest text ∧ e.tree = Syntax.parse? e.key.2 text

section reflects
variable {texts : Set String} {c : Context κ}

theorem Reflects.drop (hc : c.Reflects digest texts) (e : Eviction κ capacity) :
    (c.drop e).Reflects digest texts :=
  fun x hx => hc x ((e.sublist c.entries).subset hx)

theorem Reflects.empty : (empty : Context κ).Reflects digest texts := nofun

variable [DecidableEq κ]

theorem find?_some {key : κ × Dialect} {tree : Option Tree} (h : c.find? key = some tree) :
    ∃ e ∈ c.entries, e.key = key ∧ e.tree = tree := by
  obtain ⟨e, he, rfl⟩ := Option.map_eq_some_iff.mp h
  have hkey := List.find?_some he
  exact ⟨e, List.mem_of_find?_eq_some he, of_decide_eq_true hkey, rfl⟩

theorem Reflects.parse (hc : c.Reflects digest texts) (hdigest : Set.InjOn digest texts)
    (d : Dialect) {text : String} (ht : text ∈ texts) :
    (c.parse digest d text).2 = Syntax.parse? d text ∧
      (c.parse digest d text).1.Reflects digest texts := by
  unfold Context.parse
  split
  · next tree hfound =>
      obtain ⟨e, he, hkey, rfl⟩ := find?_some hfound
      obtain ⟨text', ht', hdig, htree⟩ := hc e he
      rw [hkey] at hdig htree
      exact ⟨hdigest ht ht' hdig ▸ htree, hc⟩
  · refine ⟨rfl, fun e he => ?_⟩
    rcases List.mem_append.mp he with he | he
    · exact hc e he
    · rw [List.mem_singleton.mp he]
      exact ⟨text, ht, rfl, rfl⟩

/-- What is asked about the texts is answered as without the context. -/
theorem Reflects.serve (hc : c.Reflects digest texts) (hdigest : Set.InjOn digest texts)
    {r : Request} (hr : ∀ d text, r.read = .ok (d, text) → text ∈ texts) :
    (c.serve digest r).2 = r.answer ∧ (c.serve digest r).1.Reflects digest texts := by
  unfold Context.serve
  split
  · next e he => exact ⟨(Request.answer_of_error he).symm, hc⟩
  · next d text htext =>
      obtain ⟨htree, hkept⟩ := hc.parse hdigest d (hr d text htext)
      rw [Request.answer_of_ok htext, Source.parse, ← htree]
      split
      · next c' tree hp =>
          rw [hp] at hkept ⊢
          exact ⟨rfl, hkept⟩
      · next c' hp =>
          rw [hp] at hkept ⊢
          exact ⟨rfl, hkept⟩

/-- One request after another is answered as without the context. -/
theorem Reflects.run (hc : c.Reflects digest texts) (hdigest : Set.InjOn digest texts)
    {turns : List (Turn κ capacity)}
    (hturns : ∀ t ∈ turns, ∀ d text, t.request.read = .ok (d, text) → text ∈ texts) :
    (c.run digest turns).2 = turns.map (·.request.answer) := by
  induction turns generalizing c with
  | nil => rfl
  | cons t ts ih =>
      obtain ⟨ht, hts⟩ := List.forall_mem_cons.mp hturns
      obtain ⟨hanswer, hkept⟩ := hc.serve hdigest ht
      rw [run_cons, List.map_cons, hanswer, ih (hkept.drop t.eviction) hts]

end reflects

/-! ### The number of trees -/

/-- Whether a tree is kept, once, for each of some texts in their dialects, and none besides. -/
structure Lists [DecidableEq κ] (digest : String → κ) (texts : Finset (Dialect × String))
    (c : Context κ) : Prop where
  /-- Each is kept once. -/
  nodup : (c.entries.map (·.key)).Nodup
  /-- The trees are those of the texts. -/
  keys_eq : (c.entries.map (·.key)).toFinset = texts.image fun t => (digest t.2, t.1)

namespace Lists

variable [DecidableEq κ] {texts : Finset (Dialect × String)} {c : Context κ}

theorem size_eq (hc : c.Lists digest texts) (hdigest : Set.InjOn digest {t | ∃ d, (d, t) ∈ texts}) :
    c.size = texts.card := by
  have hkeys : Set.InjOn (fun t : Dialect × String => (digest t.2, t.1)) texts := by
    rintro ⟨d, t⟩ ht ⟨d', t'⟩ ht' heq
    obtain ⟨hdig, hd⟩ := Prod.mk.inj heq
    exact Prod.ext hd (hdigest ⟨d, ht⟩ ⟨d', ht'⟩ hdig)
  rw [size, ← Finset.card_image_of_injOn hkeys, ← hc.keys_eq, List.toFinset_card_of_nodup hc.nodup,
    List.length_map]

theorem size_le (hc : c.Lists digest texts) : c.size ≤ texts.card := by
  rw [size, ← List.length_map, ← List.toFinset_card_of_nodup hc.nodup, hc.keys_eq]
  exact Finset.card_image_le

theorem parse (hc : c.Lists digest texts) (d : Dialect) (text : String) :
    (c.parse digest d text).1.Lists digest (insert (d, text) texts) := by
  unfold Context.parse
  split
  · next tree hfound =>
      -- The key is there, so that the text adds nothing to the keys.
      obtain ⟨e, he, hkey, -⟩ := find?_some hfound
      refine ⟨hc.nodup, ?_⟩
      rw [Finset.image_insert, ← hc.keys_eq, Finset.insert_eq_of_mem]
      exact List.mem_toFinset.mpr (List.mem_map.mpr ⟨e, he, hkey⟩)
  · next hfound =>
      have hnew : (digest text, d) ∉ c.entries.map (·.key) := by
        intro hmem
        obtain ⟨e, he, hkey⟩ := List.mem_map.mp hmem
        rw [find?, Option.map_eq_none_iff, List.find?_eq_none] at hfound
        exact hfound e he (decide_eq_true hkey)
      constructor
      · rw [List.map_append]
        exact List.concat_eq_append ▸ hc.nodup.concat hnew
      · rw [List.map_append, List.toFinset_append, hc.keys_eq, Finset.image_insert,
          Finset.insert_eq, Finset.union_comm]
        rfl

theorem serve (hc : c.Lists digest texts) (r : Request) :
    (c.serve digest r).1.Lists digest (r.read.toOption.toFinset ∪ texts) := by
  unfold Context.serve
  split
  · next e he =>
      rw [he]
      exact (Finset.empty_union texts).symm ▸ hc
  · next d text htext =>
      have hparse := hc.parse d text
      rw [htext]
      split
      · next c' tree hp => rwa [hp] at hparse
      · next c' hp => rwa [hp] at hparse

theorem run (hc : c.Lists digest texts) {turns : List (Turn κ capacity)}
    (hroom : (textsRead (turns.map (·.request)) ∪ texts).card ≤ capacity) :
    (c.run digest turns).1.Lists digest (textsRead (turns.map (·.request)) ∪ texts) := by
  induction turns generalizing c texts with
  | nil => exact (Finset.empty_union texts).symm ▸ hc
  | cons t ts ih =>
      have hserve := hc.serve t.request
      rw [List.map_cons, textsRead_cons, Finset.union_right_comm, Finset.union_comm] at hroom ⊢
      -- There is room for all texts, so for those that were read by now.
      have hleft : (c.serve digest t.request).1.drop t.eviction = (c.serve digest t.request).1 := by
        have hsize := hserve.size_le.trans <|
          (Finset.card_le_card Finset.subset_union_right).trans hroom
        rw [drop, t.eviction.left_eq _ hsize]
      rw [run_cons, hleft]
      exact ih hserve hroom

end Lists

end Context

/-! ### The cache as a context -/

/-- A request after which nothing is dropped. -/
def Context.Turn.keeping (capacity : Nat) (r : Request) : Turn String capacity := ⟨r, .none⟩

namespace ParseCache

/-- The context that a cache amounts to. -/
def toContext (c : ParseCache) : Context String :=
  ⟨c.entries.map fun e => ⟨(e.text, e.dialect), e.tree⟩⟩

theorem toContext_empty : empty.toContext = Context.empty := rfl

theorem size_toContext (c : ParseCache) : c.toContext.size = c.size := List.length_map _

theorem toContext_parse (c : ParseCache) (d : Dialect) (text : String) :
    c.toContext.parse id d text = ((c.parse d text).1.toContext, (c.parse d text).2) := by
  have hfind : c.toContext.find? (text, d) = (c.find? d text).map (·.tree) := by
    simp only [Context.find?, toContext, find?, List.find?_map, Option.map_map, Function.comp_def,
      Prod.mk.injEq, Bool.decide_and, Bool.and_comm]
  rw [Context.parse, id, hfind, parse]
  cases c.find? d text with
  | some e => rfl
  | none => simp [toContext]

theorem loadAs_eq (c : ParseCache) (s : Store) (p : Path) (chosen : Except LoadFault Dialect) :
    c.loadAs s p chosen = match chosen.bind (Source.textAt s p) with
      | .error e => (c, .error e)
      | .ok (d, text) => c.ofText p d text := by
  cases chosen <;> rfl

theorem serve_eq (c : ParseCache) (r : Request) :
    c.serve r = match r.read with
      | .error e => (c, .error e)
      | .ok (d, text) => c.ofText r.path d text := by
  cases r with
  | component s p => exact c.loadAs_eq s p _
  | module s p => exact c.loadAs_eq s p _
  | text p t =>
      rw [serve, Request.read]
      cases Source.dialectOf p <;> rfl

theorem toContext_serve (c : ParseCache) (r : Request) :
    c.toContext.serve id r = ((c.serve r).1.toContext, (c.serve r).2) := by
  rw [Context.serve, serve_eq]
  cases r.read with
  | error e => rfl
  | ok t =>
      obtain ⟨d, text⟩ := t
      dsimp only
      rw [toContext_parse, ofText]
      cases c.parse d text with
      | mk c' tree => cases tree <;> rfl

theorem run_cons (c : ParseCache) (r : Request) (rs : List Request) :
    c.run (r :: rs) = (((c.serve r).1.run rs).1, (c.serve r).2 :: ((c.serve r).1.run rs).2) := rfl

/-- Requests are answered through a cache as in its context, from which nothing is dropped. -/
theorem toContext_run (c : ParseCache) (capacity : Nat) (rs : List Request) :
    c.toContext.run id (rs.map (.keeping capacity)) =
      ((c.run rs).1.toContext, (c.run rs).2) := by
  induction rs generalizing c with
  | nil => rfl
  | cons r rs ih =>
      rw [List.map_cons, Context.run_cons, Context.Turn.keeping, toContext_serve,
        Context.drop_none, ih, run_cons]

end ParseCache

/-! ### Whole runs -/

section transparent
variable {κ : Type} [DecidableEq κ] {digest : String → κ} {capacity : Nat}

/-- A fresh context answers one request after another as without the context. -/
theorem Context.run_eq {turns : List (Turn κ capacity)}
    (hdigest : Set.InjOn digest {text | ∃ d, (d, text) ∈ textsRead (turns.map (·.request))}) :
    (empty.run digest turns).2 = turns.map (·.request.answer) := by
  refine Reflects.empty.run hdigest fun t ht d text htext => ?_
  exact ⟨d, mem_textsRead.mpr ⟨t.request, List.mem_map_of_mem ht, htext⟩⟩

/-- While there is room, a fresh context comes to keep a tree for each text that is read. -/
theorem Context.size_run {turns : List (Turn κ capacity)}
    (hdigest : Set.InjOn digest {text | ∃ d, (d, text) ∈ textsRead (turns.map (·.request))})
    (hroom : (textsRead (turns.map (·.request))).card ≤ capacity) :
    (empty.run digest turns).1.size = (textsRead (turns.map (·.request))).card := by
  have hempty : (empty : Context κ).Lists digest ∅ := ⟨List.nodup_nil, rfl⟩
  have hlists : (empty.run digest turns).1.Lists digest (textsRead (turns.map (·.request)) ∪ ∅) :=
    hempty.run (by rwa [Finset.union_empty])
  rw [Finset.union_empty] at hlists
  exact hlists.size_eq hdigest

/-- Requests are answered through the cache as without it, and it comes to hold each text that is
read. -/
theorem ParseCache.run_eq (rs : List Request) :
    (empty.run rs).2 = rs.map (·.answer) ∧ (empty.run rs).1.size = (textsRead rs).card := by
  have hrequests : (rs.map (Context.Turn.keeping (textsRead rs).card)).map (·.request) = rs := by
    rw [List.map_map]
    exact List.map_id rs
  have hdigest : Set.InjOn id {text | ∃ d, (d, text) ∈ textsRead rs} := Set.injOn_id _
  have hrun := toContext_run empty (textsRead rs).card rs
  rw [toContext_empty] at hrun
  constructor
  · have hanswers := Context.run_eq (hrequests.symm ▸ hdigest)
    rw [hrun, List.map_map] at hanswers
    exact hanswers
  · have hsize := Context.size_run (hrequests.symm ▸ hdigest) (hrequests.symm ▸ le_rfl)
    rw [hrun, hrequests, size_toContext] at hsize
    exact hsize

end transparent

namespace Emptied

/-- The 64-bit digest XXH3 of a text of one to three characters, each one byte. -/
def digest (text : String) : UInt64 :=
  let bytes := text.toList.map (·.toNat.toUInt64)
  let first := bytes.headD 0
  let middle := bytes.getD (bytes.length / 2) 0
  let last := bytes.getLastD 0
  let mixed := first <<< 16 ||| middle <<< 24 ||| last ||| bytes.length.toUInt64 <<< 8
  let h := mixed ^^^ 0x87275a9b
  let h := (h ^^^ h >>> 33) * 0xc2b2ae3d27d4eb4f
  let h := (h ^^^ h >>> 29) * 0x165667b19e3779f9
  h ^^^ h >>> 32

example : digest "a" = 0xe6c632b61e964e1f ∧ digest "abc" = 0x78af5f94892f3950 := by decide +kernel

/-- A context with room for four trees, which drops them all when there are more. -/
def all : Context.Eviction UInt64 4 where
  left es := if es.length ≤ 4 then es else []
  sublist es := by
    split
    · exact .refl es
    · exact List.nil_sublist es
  left_eq es h := if_pos h

/-- A project with two files of the same text. -/
def store : Store :=
  ⟨[(["p"], .directory), (["p", "A.tsx"], .file (.text "a;")), (["p", "B.js"], .file (.text "a;"))],
    ["p"]⟩

/-- Requests for one text at five paths in three dialects, for a text that is of no dialect, and once
more for the first text after a fifth tree has driven out all others. -/
def turns : List (Context.Turn UInt64 4) :=
  [.component store ⟨"/p/A.tsx"⟩, .module store ⟨"/p/B.js"⟩, .text ⟨"C.jsx"⟩ "a;",
    .text ⟨"D.js"⟩ "(", .text ⟨"E.mjs"⟩ "a;", .component store ⟨"/p/B.ts"⟩, .text ⟨"F.ts"⟩ "b",
    .text ⟨"G.tsx"⟩ "a;"].map (⟨·, all⟩)

theorem injOn_digest :
    Set.InjOn digest {text | ∃ d, (d, text) ∈ textsRead (turns.map (·.request))} := by
  have hdigest : ∀ x ∈ textsRead (turns.map (·.request)), ∀ y ∈ textsRead (turns.map (·.request)),
      digest x.2 = digest y.2 → x.2 = y.2 := by decide +kernel
  rintro x ⟨d, hx⟩ y ⟨d', hy⟩ heq
  exact hdigest _ hx _ hy heq

end Emptied

end Trellis
