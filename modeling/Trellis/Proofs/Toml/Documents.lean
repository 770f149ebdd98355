import Trellis.Proofs.Toml.Values

/-! # Documents that are written

Lines with plain keys are read as the keys with their values, and sections of such lines as a document.

* `IsLines` and `IsDocument` say which texts are lines, and which are sections one after another.
* `readSections_lines` and `readSections_document` read them; a line takes one step.
* `addValues_pairs` and `addSections_sections`: distinct names are put one after another.
* `read?_of_isDocument`: a document is read as its sections. -/

namespace Trellis.Toml

variable {s t value name key : String} {cs rest : List Char} {c : Char} {v : Toml} {n : Nat}
  {entries : List (String × Toml)} {sections : List (String × List (String × Toml))}

/-! ### Keys -/

/-- Whether a name can be a key without quotes. -/
def isBareKey (name : String) : Bool := !name.toList.isEmpty && name.toList.all isBare

theorem isBareKey_iff : isBareKey name = true ↔ name.toList ≠ [] ∧ ∀ c ∈ name.toList, isBare c = true := by
  simp [isBareKey]

/-- A character of a key is no blank, no line break and no mark of a comment. -/
theorem isSolid_of_isBare (hc : isBare c = true) (cs : List Char) : IsSolid (c :: cs) := by
  have hne (d : Char) (hd : isBare d = false) : c ≠ d := by
    rintro rfl
    rw [hc] at hd
    cases hd
  refine ⟨?_, newline?_eq_none (hne '\n' (by decide)) (hne '\r' (by decide)) cs,
    fun r heq => hne '#' (by decide) (List.cons.inj heq).1⟩
  rintro d ⟨⟩
  simp [isSpace, hne ' ' (by decide), hne '\t' (by decide)]

theorem IsSolid.skipSpaces (h : IsSolid cs) : skipSpaces cs = cs := skipSpaces_of_head h.space

theorem readPart_append (hkey : isBareKey key = true) (hc : isBare c = false) :
    readPart (key.toList ++ c :: rest) = some (key, c :: rest) := by
  obtain ⟨hne, hall⟩ := isBareKey_iff.mp hkey
  have hstop : ¬ isBare c = true := by simp [hc]
  have htake : (key.toList ++ c :: rest).takeWhile isBare = key.toList := by
    rw [List.takeWhile_append_of_pos hall, List.takeWhile_cons_of_neg hstop, List.append_nil]
  have hdrop : (key.toList ++ c :: rest).dropWhile isBare = c :: rest := by
    rw [List.dropWhile_append_of_pos hall, List.dropWhile_cons_of_neg hstop]
  rw [readPart, htake, hdrop]
  obtain ⟨d, ds, hds⟩ := List.exists_cons_of_ne_nil hne
  rw [hds]
  dsimp only
  rw [← hds, String.ofList_toList]

/-- A key without quotes is read up to what follows it. -/
theorem readKey_append (hkey : isBareKey key = true) (hc : isBare c = false)
    (hnext : skipSpaces (c :: rest) = cs) (hdot : ∀ r, cs ≠ '.' :: r) :
    readKey (n + 1) (key.toList ++ c :: rest) = some ([key], cs) := by
  obtain ⟨hne, hall⟩ := isBareKey_iff.mp hkey
  have hskip : skipSpaces (key.toList ++ c :: rest) = key.toList ++ c :: rest := by
    obtain ⟨d, ds, hds⟩ := List.exists_cons_of_ne_nil hne
    rw [hds] at hall ⊢
    exact (isSolid_of_isBare (hall d List.mem_cons_self) _).skipSpaces
  rw [readKey, hskip, readPart_append hkey hc, Option.bind_some]
  dsimp only
  rw [hnext]
  split
  · next r => exact absurd rfl (hdot r)
  · rfl

/-! ### Lines -/

/-- Lines with the names and the values that they set. -/
inductive IsLines : String → List (String × Toml) → Prop
  /-- No line. -/
  | nil : IsLines "" []
  /-- A name with its value. -/
  | line {key value : String} {v : Toml} (hkey : isBareKey key = true) (hvalue : IsValue value.toList v) :
      IsLines (line key value) [(key, v)]
  /-- Lines after other lines. -/
  | append {s t : String} {entries more : List (String × Toml)} (hs : IsLines s entries)
      (ht : IsLines t more) : IsLines (s ++ t) (entries ++ more)

/-- A name and its value, as they are read. -/
def pair (entry : String × Toml) : List String × String × Toml := ([], entry.1, entry.2)

theorem toList_line (key value : String) (rest : List Char) : (line key value).toList ++ rest =
    key.toList ++ ' ' :: '=' :: ' ' :: (value.toList ++ '\n' :: rest) := by
  simp [line]

theorem lineEnd?_of_isSolid (h : IsSolid (c :: cs)) : lineEnd? (c :: cs) = none := by
  have hcomment : skipComment (c :: cs) = c :: cs := by
    rw [skipComment.eq_2]
    exact h.comment
  rw [lineEnd?, h.skipSpaces, hcomment]
  exact h.newline

/-- A line is read as its name and its value. -/
theorem readPair_line (hkey : isBareKey key = true) (hvalue : IsValue value.toList v) (rest : List Char) :
    readPair ((line key value).toList ++ rest) = some (pair (key, v), '\n' :: rest) := by
  have hequals (r : List Char) : skipSpaces ('=' :: r) = '=' :: r := rfl
  have hskip : skipSpaces (' ' :: (value.toList ++ '\n' :: rest)) = value.toList ++ '\n' :: rest := by
    have hspace : skipSpaces (' ' :: (value.toList ++ '\n' :: rest)) =
        skipSpaces (value.toList ++ '\n' :: rest) := rfl
    rw [hspace]
    apply skipSpaces_of_head
    have hhead := hvalue.head
    cases hv : value.toList with
    | nil =>
        rintro d ⟨⟩
        rfl
    | cons d ds =>
        rw [hv] at hhead
        rintro d' ⟨⟩
        exact hhead _ rfl
  have hlong : value.toList.length < 2 * (value.toList ++ '\n' :: rest).length + 2 := by
    rw [List.length_append]
    omega
  have hread : readKey depthLimit (key.toList ++ ' ' :: '=' :: ' ' :: (value.toList ++ '\n' :: rest)) =
      some ([key], '=' :: ' ' :: (value.toList ++ '\n' :: rest)) :=
    readKey_append hkey (by decide) rfl fun r heq => absurd (List.cons.inj heq).1 (by decide)
  rw [toList_line, readPair, hread, Option.bind_some]
  dsimp only
  rw [hequals]
  change (readValue _ depthLimit (skipSpaces (' ' :: (value.toList ++ '\n' :: rest)))).map _ = _
  rw [hskip, hvalue.read _ _ hlong]
  rfl

/-- A line adds its value to the section that is read. -/
theorem readSections_line (hkey : isBareKey key = true) (hvalue : IsValue value.toList v) (last : Section)
    (earlier : List Section) (rest : List Char) :
    readSections (n + 1) (last :: earlier) ((line key value).toList ++ rest) =
      readSections n ({ last with pairs := pair (key, v) :: last.pairs } :: earlier) rest := by
  obtain ⟨hne, hall⟩ := isBareKey_iff.mp hkey
  have hread := readPair_line hkey hvalue rest
  obtain ⟨d, ds, htext⟩ : ∃ d ds, (line key value).toList ++ rest = d :: ds ∧ isBare d = true := by
    obtain ⟨d, ds, hds⟩ := List.exists_cons_of_ne_nil hne
    exact ⟨d, _, by rw [toList_line, hds, List.cons_append], hall d (by simp [hds])⟩
  obtain ⟨htext, hd⟩ := htext
  have hsolid := isSolid_of_isBare hd ds
  have hbracket : d ≠ '[' := by
    rintro rfl
    exact absurd hd (by decide)
  have hend : lineEnd? ('\n' :: rest) = some rest := rfl
  rw [htext] at hread ⊢
  rw [readSections, lineEnd?_of_isSolid hsolid]
  dsimp only
  rw [hsolid.skipSpaces]
  split
  · next heq => exact absurd (List.cons.inj heq).1 hbracket
  · rw [hread]
    dsimp only
    rw [hend]

theorem IsLines.length_le (h : IsLines s entries) : entries.length ≤ s.toList.length := by
  induction h with
  | nil => exact Nat.zero_le _
  | line =>
      simp only [Toml.line, String.toList_append, List.length_append, List.length_singleton]
      exact Nat.le_add_left 1 _
  | append _ _ ihs iht =>
      rw [List.length_append, String.toList_append, List.length_append]
      exact Nat.add_le_add ihs iht

/-- Lines are read one after another into the same section. -/
theorem readSections_lines (h : IsLines s entries) (last : Section) (earlier : List Section)
    (rest : List Char) : readSections (n + entries.length) (last :: earlier) (s.toList ++ rest) =
      readSections n
        ({ last with pairs := (entries.map pair).reverse ++ last.pairs } :: earlier) rest := by
  induction h generalizing n last rest with
  | nil => rfl
  | line hkey hvalue => exact readSections_line hkey hvalue last earlier rest
  | append _ _ ihs iht =>
      rw [List.length_append, Nat.add_comm (List.length _), ← Nat.add_assoc, String.toList_append,
        List.append_assoc, ihs, iht]
      simp

/-! ### Sections -/

/-- Sections one after another, with an empty line between them, and the names and the values of each. -/
inductive IsDocument : String → List (String × List (String × Toml)) → Prop
  /-- The last section. -/
  | last {name s : String} {entries : List (String × Toml)} (hname : isBareKey name = true)
      (hs : IsLines s entries) : IsDocument ("[" ++ name ++ "]\n" ++ s) [(name, entries)]
  /-- A section before others. -/
  | cons {name s t : String} {entries : List (String × Toml)}
      {sections : List (String × List (String × Toml))} (hname : isBareKey name = true)
      (hs : IsLines s entries) (ht : IsDocument t sections) :
      IsDocument ("[" ++ name ++ "]\n" ++ s ++ "\n" ++ t) ((name, entries) :: sections)

/-- A section with its names and values, as it is read. -/
def sectionOf (sec : String × List (String × Toml)) : Section :=
  ⟨false, [sec.1], (sec.2.map pair).reverse⟩

theorem readHeader_append (hname : isBareKey name = true) (rest : List Char) :
    readHeader ('[' :: (name.toList ++ ']' :: rest)) = some ((false, [name]), rest) := by
  obtain ⟨hne, hall⟩ := isBareKey_iff.mp hname
  have hclosing (r : List Char) : skipSpaces (']' :: r) = ']' :: r := rfl
  have hread : readKey depthLimit (name.toList ++ ']' :: rest) = some ([name], ']' :: rest) :=
    readKey_append hname (by decide) rfl fun r heq => absurd (List.cons.inj heq).1 (by decide)
  have hsingle (r : List Char) : name.toList ++ ']' :: rest ≠ '[' :: r := by
    obtain ⟨d, ds, hds⟩ := List.exists_cons_of_ne_nil hne
    have hd := hall d (by simp [hds])
    rw [hds]
    rintro ⟨⟩
    exact absurd hd (by decide)
  rw [readHeader.eq_2 _ hsingle, hread, Option.bind_some]
  dsimp only
  rw [hclosing]
  rfl

/-- A header begins a new section. -/
theorem readSections_header (hname : isBareKey name = true) (done : List Section) (rest : List Char) :
    readSections (n + 1) done (("[" ++ name ++ "]\n").toList ++ rest) =
      readSections n (⟨false, [name], []⟩ :: done) rest := by
  have htext : ("[" ++ name ++ "]\n").toList ++ rest = '[' :: (name.toList ++ ']' :: '\n' :: rest) := by
    simp
  have hsolid : IsSolid ('[' :: (name.toList ++ ']' :: '\n' :: rest)) :=
    ⟨by rintro d ⟨⟩; rfl, rfl, fun r heq => absurd (List.cons.inj heq).1 (by decide)⟩
  have hend : lineEnd? ('\n' :: rest) = some rest := rfl
  rw [htext, readSections, lineEnd?_of_isSolid hsolid]
  dsimp only
  rw [hsolid.skipSpaces, readHeader_append hname]
  dsimp only
  rw [hend]
  rfl

/-- An empty line is passed over, when more follows it. -/
theorem readSections_blank (hrest : rest ≠ []) (done : List Section) :
    readSections (n + 1) done ('\n' :: rest) = readSections n done rest := by
  have hend : lineEnd? ('\n' :: rest) = some rest := rfl
  obtain ⟨c, cs, rfl⟩ := List.exists_cons_of_ne_nil hrest
  rw [readSections, hend]

/-- How many steps are made to read a document: one for each header, each line and each end of a section. -/
def steps (sections : List (String × List (String × Toml))) : Nat :=
  (sections.map fun sec => sec.2.length + 2).sum

theorem IsDocument.exists_cons (h : IsDocument s sections) : ∃ cs, s.toList = '[' :: cs := by
  cases h <;> simp

theorem IsDocument.steps_le (h : IsDocument s sections) : steps sections ≤ s.toList.length := by
  have hclosing : "]\n".toList.length = 2 := rfl
  induction h with
  | last _ hs =>
      have := hs.length_le
      simp only [steps, List.map_cons, List.map_nil, List.sum_cons, List.sum_nil, String.toList_append,
        List.length_append]
      omega
  | cons _ hs _ ih =>
      have := hs.length_le
      simp only [steps, List.map_cons, List.sum_cons, String.toList_append, List.length_append] at ih ⊢
      omega

/-- A document is read section by section. -/
theorem readSections_document (h : IsDocument s sections) (done : List Section) :
    readSections (n + steps sections) done s.toList = some ((sections.map sectionOf).reverse ++ done) := by
  induction h generalizing n done with
  | @last name s entries hname hs =>
      have hsteps : n + steps [(name, entries)] = n + 1 + entries.length + 1 := by
        simp [steps]
        omega
      have hlines := readSections_lines (n := n + 1) hs ⟨false, [name], []⟩ done []
      rw [List.append_nil] at hlines
      rw [hsteps, String.toList_append, readSections_header hname, hlines, readSections]
      simp [sectionOf]
      rfl
  | @cons name s t entries sections hname hs ht ih =>
      have hsteps : n + steps ((name, entries) :: sections) =
          n + steps sections + 1 + entries.length + 1 := by
        simp only [steps, List.map_cons, List.sum_cons]
        omega
      have htext : ("[" ++ name ++ "]\n" ++ s ++ "\n" ++ t).toList =
          ("[" ++ name ++ "]\n").toList ++ (s.toList ++ '\n' :: t.toList) := by simp
      obtain ⟨cs, hcs⟩ := ht.exists_cons
      have hne : t.toList ≠ [] := by simp [hcs]
      rw [hsteps, htext, readSections_header hname, readSections_lines hs, readSections_blank hne, ih]
      simp [sectionOf]

/-! ### Names in order -/

theorem find?_eq_none {name : String} {parts : List (String × Draft)}
    (h : name ∉ parts.map Prod.fst) : find? name parts = none := by
  induction parts with
  | nil => rfl
  | cons part parts ih =>
      rw [List.map_cons, List.mem_cons, not_or] at h
      rw [find?, if_neg (Ne.symm h.1), ih h.2]

/-- A new name is put at the end. -/
theorem put_of_notMem {name : String} {d : Draft} {parts : List (String × Draft)}
    (h : name ∉ parts.map Prod.fst) : put name d parts = parts ++ [(name, d)] := by
  induction parts with
  | nil => rfl
  | cons part parts ih =>
      rw [List.map_cons, List.mem_cons, not_or] at h
      rw [put, if_neg (Ne.symm h.1), ih h.2, List.cons_append]

/-- A name with its value, as part of a table under construction. -/
def draftOf (entry : String × Toml) : String × Draft := (entry.1, .value entry.2)

/-- Values with distinct names are added one after another. -/
theorem addValues_pairs {done : List (String × Draft)}
    (h : (done.map Prod.fst ++ entries.map Prod.fst).Nodup) :
    addValues done (entries.map pair) = some (done ++ entries.map draftOf) := by
  induction entries generalizing done with
  | nil => simp [addValues]
  | cons entry entries ih =>
      have hnew : entry.1 ∉ done.map Prod.fst := fun hmem =>
        List.disjoint_of_nodup_append h hmem List.mem_cons_self
      have hadd : addValue [] entry.1 entry.2 done = some (done ++ [draftOf entry]) := by
        rw [addValue, change, find?_eq_none hnew, put_of_notMem hnew]
        rfl
      rw [List.map_cons, pair, addValues, hadd, Option.bind_some, ih]
      · rw [List.append_assoc]
        rfl
      · simpa [draftOf] using h

/-- A section, as part of a document under construction. -/
def tableOf (sec : String × List (String × Toml)) : String × Draft :=
  (sec.1, .table .header (sec.2.map draftOf))

/-- Sections with distinct names are added one after another. -/
theorem addSections_sections {done : List (String × Draft)}
    (h : (done.map Prod.fst ++ sections.map Prod.fst).Nodup)
    (hentries : ∀ sec ∈ sections, (sec.2.map Prod.fst).Nodup) :
    addSections done (sections.map sectionOf) = some (done ++ sections.map tableOf) := by
  induction sections generalizing done with
  | nil => simp [addSections]
  | cons sec sections ih =>
      obtain ⟨hsec, hmore⟩ := List.forall_mem_cons.mp hentries
      have hnew : sec.1 ∉ done.map Prod.fst := fun hmem =>
        List.disjoint_of_nodup_append h hmem List.mem_cons_self
      have hvalues : addValues [] (sec.2.map pair) = some (sec.2.map draftOf) := addValues_pairs hsec
      have hadd : addSection done (sectionOf sec) = some (done ++ [tableOf sec]) := by
        simp only [addSection, sectionOf, List.getLast?_singleton, List.dropLast_singleton, change,
          find?_eq_none hnew, List.reverse_reverse, hvalues, put_of_notMem hnew]
        rfl
      rw [List.map_cons, addSections, hadd, Option.bind_some, ih _ hmore]
      · rw [List.append_assoc]
        rfl
      · simpa [tableOf] using h

theorem finishEntries_draftOf (entries : List (String × Toml)) :
    Draft.finishEntries (entries.map draftOf) = entries := by
  induction entries with
  | nil => rfl
  | cons entry entries ih => rw [List.map_cons, draftOf, Draft.finishEntries, Draft.finish, ih]

theorem finishEntries_tableOf (sections : List (String × List (String × Toml))) :
    Draft.finishEntries (sections.map tableOf) = sections.map fun sec => (sec.1, .table sec.2) := by
  induction sections with
  | nil => rfl
  | cons sec sections ih =>
      rw [List.map_cons, tableOf, Draft.finishEntries, Draft.finish, finishEntries_draftOf, ih,
        List.map_cons]

/-- A document whose sections, and the names in each, are distinct is read as its sections. -/
theorem read?_of_isDocument (h : IsDocument s sections) (hsections : (sections.map Prod.fst).Nodup)
    (hentries : ∀ sec ∈ sections, (sec.2.map Prod.fst).Nodup) :
    read? s = some (sections.map fun sec => (sec.1, .table sec.2)) := by
  obtain ⟨n, hn⟩ := Nat.exists_eq_add_of_le' (Nat.le_add_right_of_le (k := 2) h.steps_le)
  obtain ⟨cs, hcs⟩ := h.exists_cons
  have hmark : ¬ '['.toNat = 0xFEFF := by decide
  rw [read?, hcs]
  dsimp only
  rw [if_neg hmark, ← hcs, hn, readSections_document h, Option.bind_some, List.reverse_append, List.reverse_reverse,
    List.reverse_singleton, List.singleton_append, addSections]
  have hfirst : addSection [] ⟨false, [], []⟩ = some [] := rfl
  rw [hfirst, Option.bind_some, addSections_sections (by simpa using hsections) hentries, Option.map_some,
    List.nil_append, finishEntries_tableOf]

end Trellis.Toml
