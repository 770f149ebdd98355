import Mathlib.Data.String.Basic
import Trellis.Coverage.Summary

/-! # The entry that answers for a source

A summary may hold several entries that fit a source: its own ones, whose paths lead to it, and
lookalikes, whose paths only end with the source's path below the root.

* `Summary.IsSorted` says that the entries stand in the order of their paths, each path once;
  `SummaryFile.isSorted_of_load`: so does every summary that is read.
* `SummaryFile.exists_least`: where an entry fits, the one with the least path answers.
* `SummaryFile.lineCoverage_own_iff`: the answer is that of an own entry exactly when every
  lookalike has an own entry before it. A lookalike before all own entries answers in their place
  (`SummaryFile.foreign_entry_answers`). -/

namespace Trellis

/-! ### Entries in order -/

/-- Whether named values stand in the order of their names, each name once. -/
def Json.Sorted (ms : List (String × Json)) : Prop := ms.Pairwise (·.1 < ·.1)

/-- A value that is put in brings no name but its own. -/
theorem Json.mem_insertMember {name : String} {v : Json} {ms : List (String × Json)}
    {m : String × Json} (h : m ∈ insertMember name v ms) : m.1 = name ∨ m ∈ ms := by
  induction ms with
  | nil =>
      simp only [insertMember, List.mem_singleton] at h
      exact .inl (by rw [h])
  | cons head rest ih =>
      obtain ⟨n, w⟩ := head
      by_cases heq : name = n
      · simp only [insertMember, if_pos heq, List.mem_cons] at h
        rcases h with rfl | h
        · exact .inl heq.symm
        · exact .inr (List.mem_cons_of_mem _ h)
      · by_cases hlt : name < n
        · simp only [insertMember, if_neg heq, if_pos hlt] at h
          rcases List.mem_cons.mp h with rfl | h
          · exact .inl rfl
          · exact .inr h
        · simp only [insertMember, if_neg heq, if_neg hlt] at h
          rcases List.mem_cons.mp h with rfl | h
          · exact .inr List.mem_cons_self
          · rcases ih h with h | h
            · exact .inl h
            · exact .inr (List.mem_cons_of_mem _ h)

theorem Json.sorted_insertMember (name : String) (v : Json) {ms : List (String × Json)}
    (h : Sorted ms) : Sorted (insertMember name v ms) := by
  induction ms with
  | nil => exact List.pairwise_singleton _ _
  | cons head rest ih =>
      obtain ⟨n, w⟩ := head
      obtain ⟨hhead, hrest⟩ := List.pairwise_cons.mp h
      by_cases heq : name = n
      · simp only [insertMember, if_pos heq]
        exact List.pairwise_cons.mpr ⟨hhead, hrest⟩
      · by_cases hlt : name < n
        · simp only [insertMember, if_neg heq, if_pos hlt]
          refine List.pairwise_cons.mpr ⟨fun m hm => ?_, h⟩
          rcases List.mem_cons.mp hm with rfl | hm
          · exact hlt
          · exact lt_trans hlt (hhead m hm)
        · simp only [insertMember, if_neg heq, if_neg hlt]
          have hgt : n < name := lt_of_le_of_ne (not_lt.mp hlt) (Ne.symm heq)
          refine List.pairwise_cons.mpr ⟨fun m hm => ?_, ih hrest⟩
          rcases mem_insertMember hm with hm | hm
          · show n < m.1
            rw [hm]
            exact hgt
          · exact hhead m hm

namespace Coverage

/-- Whether the entries of a summary stand in the order of their paths, each path once. -/
def Summary.IsSorted (summary : Summary) : Prop := Json.Sorted summary.entries

theorem Summary.ofMembers_isSorted (members : List (String × Json)) :
    (ofMembers members).IsSorted := by
  have hfold : ∀ sorted, Json.Sorted sorted →
      Json.Sorted (members.foldl (fun sorted m => Json.insertMember m.1 m.2 sorted) sorted) := by
    induction members with
    | nil => exact fun sorted h => h
    | cons m members ih =>
        intro sorted h
        exact ih _ (Json.sorted_insertMember m.1 m.2 h)
  exact hfold [] List.Pairwise.nil

theorem Summary.isSorted_of_read {text : String} {summary : Summary}
    (h : read? text = some summary) : summary.IsSorted := by
  obtain ⟨d, -, hd⟩ := Option.bind_eq_some_iff.mp h
  cases d with
  | obj members =>
      obtain ⟨ms, -, rfl⟩ := Option.map_eq_some_iff.mp hd
      exact ofMembers_isSorted ms
  | null | bool _ | number _ | text _ | arr _ => cases hd

/-- In a summary in order, the entry that is found first has the least path. -/
theorem Summary.IsSorted.le_of_find? {summary : Summary} (h : summary.IsSorted)
    {p : String × Json → Bool} {e e' : String × Json} (he : summary.entries.find? p = some e)
    (he' : e' ∈ summary.entries) (hp : p e' = true) : e.1 ≤ e'.1 := by
  obtain ⟨_, before, after, heq, hbefore⟩ := List.find?_eq_some_iff_append.mp he
  unfold IsSorted Json.Sorted at h
  rw [heq] at h he'
  rcases List.mem_append.mp he' with hm | hm
  · have hn := hbefore e' hm
    simp [hp] at hn
  · rcases List.mem_cons.mp hm with rfl | hm
    · exact le_refl _
    · have hafter := (List.pairwise_append.mp h).2.1
      exact le_of_lt (List.rel_of_pairwise_cons hafter hm)

/-! ### Own entries and lookalikes -/

namespace SummaryFile

section entries
variable {f : SummaryFile} {s : Store} {summary : Summary} {source : Path}

/-- Whether an entry is the source's own: its path leads to the source. -/
def Owns (f : SummaryFile) (s : Store) (source : Path) (e : String × Json) : Prop :=
  e.1 ≠ totalKey ∧ f.denotes s e.1 (f.root.join source) = true

/-- Whether an entry only looks like the source's own: its path ends with the source's path below
the root, but leads elsewhere. -/
def Resembles (f : SummaryFile) (s : Store) (source : Path) (e : String × Json) : Prop :=
  e.1 ≠ totalKey ∧ f.denotes s e.1 (f.root.join source) = false ∧
    f.endsLike e.1 (f.root.join source) = true

/-- Whether an entry is passed over or not in the search for the source's figure. -/
def fits (f : SummaryFile) (s : Store) (source : Path) (e : String × Json) : Bool :=
  e.1 ≠ totalKey && f.isFor s e.1 (f.root.join source)

/-- What is answered for a source from the figure of an entry. -/
def answer (source : Path) (v : Json) : Except CoverageFault Decimal.Binary :=
  match v.binary? with
  | some x => .ok x
  | none => .error (.notANumber source v.sortKeys.compact)

theorem fits_iff {e : String × Json} :
    f.fits s source e = true ↔ f.Owns s source e ∨ f.Resembles s source e := by
  unfold fits isFor Owns Resembles
  cases f.denotes s e.1 (f.root.join source) <;> simp

theorem Owns.fits {e : String × Json} (h : f.Owns s source e) : f.fits s source e = true :=
  fits_iff.mpr (.inl h)

theorem Resembles.not_owns {e : String × Json} (h : f.Resembles s source e) :
    ¬ f.Owns s source e := by
  intro ho
  have hd := h.2.1
  rw [ho.2] at hd
  cases hd

theorem isSorted_of_load (h : f.load s = .ok summary) : summary.IsSorted := by
  unfold load at h
  split at h
  · cases h
  · cases h
  · split at h
    · rename_i hread
      cases h
      exact Summary.isSorted_of_read hread
    · cases h

/-- The answer for a source is that of the first entry that fits. -/
theorem lineCoverage_of_find? {e : String × Json} (hload : f.load s = .ok summary)
    (he : summary.entries.find? (f.fits s source) = some e) :
    f.lineCoverage s source = answer source e.2 := by
  have hentry : f.entryFor? s summary source = some e.2 := by
    unfold entryFor?
    show (summary.entries.find? (f.fits s source)).map (·.2) = some e.2
    rw [he]
    rfl
  unfold lineCoverage
  rw [hload]
  dsimp only
  rw [hentry]
  rfl

/-- Where an entry fits, the one with the least path answers. -/
theorem exists_least (hload : f.load s = .ok summary)
    (hfits : ∃ e ∈ summary.entries, f.fits s source e = true) :
    ∃ e ∈ summary.entries, f.fits s source e = true ∧
      f.lineCoverage s source = answer source e.2 ∧
      ∀ e' ∈ summary.entries, f.fits s source e' = true → e.1 ≤ e'.1 := by
  have hsome : (summary.entries.find? (f.fits s source)).isSome := List.find?_isSome.mpr hfits
  obtain ⟨e, he⟩ := Option.isSome_iff_exists.mp hsome
  refine ⟨e, List.mem_of_find?_eq_some he, List.find?_some he, lineCoverage_of_find? hload he, ?_⟩
  intro e' hmem hp
  exact (isSorted_of_load hload).le_of_find? he hmem hp

/-- For a source with an own entry, the entry with the least path among the own ones and the
lookalikes answers; it is an own one exactly when every lookalike has an own one before it. -/
theorem lineCoverage_own_iff (hload : f.load s = .ok summary)
    (hown : ∃ e ∈ summary.entries, f.Owns s source e) :
    ∃ e ∈ summary.entries, f.lineCoverage s source = answer source e.2 ∧
      (f.Owns s source e ∨ f.Resembles s source e) ∧
      (∀ e' ∈ summary.entries, f.Owns s source e' ∨ f.Resembles s source e' → e.1 ≤ e'.1) ∧
      (f.Owns s source e ↔ ∀ l ∈ summary.entries, f.Resembles s source l →
        ∃ o ∈ summary.entries, f.Owns s source o ∧ o.1 < l.1) := by
  obtain ⟨o, homem, ho⟩ := hown
  obtain ⟨e, hmem, hfits, hanswer, hleast⟩ := exists_least hload ⟨o, homem, ho.fits⟩
  refine ⟨e, hmem, hanswer, fits_iff.mp hfits, fun e' hm h => hleast e' hm (fits_iff.mpr h), ?_⟩
  constructor
  -- An own entry that answers lies before every lookalike, since no path stands twice.
  · intro he l hl hres
    have hle := hleast l hl (fits_iff.mpr (.inr hres))
    have hne : e.1 ≠ l.1 := by
      intro heq
      have hd := hres.2.1
      rw [← heq, he.2] at hd
      cases hd
    exact ⟨e, hmem, he, lt_of_le_of_ne hle hne⟩
  · intro hbefore
    rcases fits_iff.mp hfits with he | hres
    · exact he
    · obtain ⟨o', hm', ho', hlt⟩ := hbefore e hmem hres
      exact absurd (hleast o' hm' ho'.fits) (not_le.mpr hlt)

end entries

/-! ### A lookalike that answers -/

namespace Lookalike

/-- The summary of a project, in which a package inside has a source of the same path. -/
def text : String :=
  "\x7b\"lib/main.js\":\x7b\"lines\":\x7b\"pct\":10\x7d\x7d," ++
    "\"main.js\":\x7b\"lines\":\x7b\"pct\":90\x7d\x7d\x7d"

/-- The project. -/
def store : Store :=
  ⟨[(["p"], .directory), (["p", "cov.json"], .file (.text text)),
    (["p", "main.js"], .file (.text "")), (["p", "lib"], .directory),
    (["p", "lib", "main.js"], .file (.text ""))], []⟩

/-- Where the summary stands. -/
def file : SummaryFile := ⟨⟨"/p"⟩, ⟨"/p/cov.json"⟩⟩

/-- The source. -/
def source : Path := ⟨"/p/main.js"⟩

/-- The summary holds one entry for each of the two sources. -/
theorem load_eq : ∃ summary, file.load store = .ok summary ∧
    summary.entries.map (fun e => (e.1, e.2.binary?)) =
      [("lib/main.js", some (.ofNat 10)), ("main.js", some (.ofNat 90))] := by
  have h : (file.load store).toOption.map (·.entries.map fun e => (e.1, e.2.binary?)) =
      some [("lib/main.js", some (.ofNat 10)), ("main.js", some (.ofNat 90))] := by
    decide +kernel
  obtain ⟨summary, hload, hentries⟩ := Option.map_eq_some_iff.mp h
  cases hl : file.load store with
  | error e =>
      rw [hl] at hload
      cases hload
  | ok summary' =>
      rw [hl] at hload
      cases hload
      exact ⟨summary, rfl, hentries⟩

theorem owns (v : Json) : file.Owns store source ("main.js", v) := by
  have h : "main.js" ≠ totalKey ∧ file.denotes store "main.js" (file.root.join source) = true := by
    decide +kernel
  exact h

theorem resembles (v : Json) : file.Resembles store source ("lib/main.js", v) := by
  have h : "lib/main.js" ≠ totalKey ∧
      file.denotes store "lib/main.js" (file.root.join source) = false ∧
      file.endsLike "lib/main.js" (file.root.join source) = true := by
    decide +kernel
  exact h

theorem lineCoverage_eq : file.lineCoverage store source = .ok (.ofNat 10) := by decide +kernel

/-- An entry with a number answers with it. -/
theorem answer_eq {v : Json} {x : Decimal.Binary} (h : v.binary? = some x) :
    answer source v = .ok x := by
  unfold answer
  rw [h]

/-- The entries of the summary are the lookalike and the source's own, with their figures. -/
theorem exists_entries : ∃ summary, file.load store = .ok summary ∧ ∃ v w,
    summary.entries = [("lib/main.js", v), ("main.js", w)] ∧
      answer source v = .ok (.ofNat 10) ∧ answer source w = .ok (.ofNat 90) := by
  obtain ⟨summary, hload, hentries⟩ := load_eq
  obtain ⟨⟨k, v⟩, rest, hcons, hv, hrest⟩ := List.map_eq_cons_iff.mp hentries
  obtain ⟨⟨k', w⟩, hlast, hval⟩ := List.map_eq_singleton_iff.mp hrest
  rw [hlast] at hcons
  simp only [Prod.mk.injEq] at hv hval
  obtain ⟨rfl, hv⟩ := hv
  obtain ⟨rfl, hw⟩ := hval
  exact ⟨summary, hload, v, w, hcons, answer_eq hv, answer_eq hw⟩

end Lookalike

theorem lineCoverage_own_iff_lookalike :
    ∃ summary, Lookalike.file.load Lookalike.store = .ok summary ∧
      (∃ e ∈ summary.entries, Lookalike.file.Owns Lookalike.store Lookalike.source e) ∧
      ∃ e ∈ summary.entries,
        Lookalike.file.lineCoverage Lookalike.store Lookalike.source =
          answer Lookalike.source e.2 ∧
        (Lookalike.file.Owns Lookalike.store Lookalike.source e ↔
          ∀ l ∈ summary.entries, Lookalike.file.Resembles Lookalike.store Lookalike.source l →
            ∃ o ∈ summary.entries,
              Lookalike.file.Owns Lookalike.store Lookalike.source o ∧ o.1 < l.1) := by
  obtain ⟨summary, hload, v, w, hentries, -, -⟩ := Lookalike.exists_entries
  have hown : ∃ e ∈ summary.entries, Lookalike.file.Owns Lookalike.store Lookalike.source e :=
    ⟨("main.js", w), by simp [hentries], Lookalike.owns w⟩
  obtain ⟨e, hmem, hanswer, -, -, hiff⟩ := lineCoverage_own_iff hload hown
  exact ⟨summary, hload, hown, e, hmem, hanswer, hiff⟩

/-- A summary may have an own entry for a source and yet another source's entry answers. -/
theorem foreign_entry_answers :
    ∃ summary, Lookalike.file.load Lookalike.store = .ok summary ∧
      (∃ e ∈ summary.entries, Lookalike.file.Owns Lookalike.store Lookalike.source e) ∧
      ∃ l ∈ summary.entries, Lookalike.file.Resembles Lookalike.store Lookalike.source l ∧
        Lookalike.file.lineCoverage Lookalike.store Lookalike.source =
          answer Lookalike.source l.2 ∧
        ∀ e ∈ summary.entries, Lookalike.file.Owns Lookalike.store Lookalike.source e →
          Lookalike.file.lineCoverage Lookalike.store Lookalike.source ≠
            answer Lookalike.source e.2 := by
  obtain ⟨summary, hload, v, w, hentries, hv, hw⟩ := Lookalike.exists_entries
  refine ⟨summary, hload, ⟨("main.js", w), by simp [hentries], Lookalike.owns w⟩,
    ("lib/main.js", v), by simp [hentries], Lookalike.resembles v, ?_, ?_⟩
  · rw [Lookalike.lineCoverage_eq, hv]
  · intro e hmem he
    rw [hentries] at hmem
    rcases List.mem_cons.mp hmem with rfl | hmem
    · exact absurd he (Lookalike.resembles v).not_owns
    · rw [List.mem_singleton] at hmem
      subst hmem
      rw [Lookalike.lineCoverage_eq, hw]
      decide +kernel

end SummaryFile

end Coverage

end Trellis
