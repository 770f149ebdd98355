import Mathlib.Algebra.Order.BigOperators.Group.List
import Mathlib.Data.Finset.Prod
import Mathlib.Data.List.Infix
import Mathlib.Data.String.Basic
import Mathlib.Tactic.Ring
import Trellis.Contract.Expansion
import Trellis.Proofs.Source.Names

/-! # Chains of imports

How far imports lead from one name to another before a place comes back.

* `Store.links` are the names that a store has room for, each in a path that can be followed:
  `Store.card_links_le` bounds their number.
* `Expansion.Chain` is what a chain has behind it: different links. `Expansion.locate_of_reach`: the
  bound that a store gives is never used up, so a greater one changes nothing. -/

namespace Trellis

namespace Store

/-! ### Paths as numbers -/

/-- The number of a list of bytes. -/
def codeOf : List UInt8 → Nat
  | [] => 0
  | b :: bs => 1 + b.toNat + 256 * codeOf bs

theorem codeOf_add_le (bs : List UInt8) : codeOf bs + 256 ≤ 256 ^ (bs.length + 1) := by
  induction bs with
  | nil => simp [codeOf]
  | cons b bs ih =>
      have hb := b.toNat_lt
      rw [codeOf, List.length_cons, pow_succ]
      omega

theorem codeOf_inj {bs bs' : List UInt8} (h : codeOf bs = codeOf bs') : bs = bs' := by
  induction bs generalizing bs' with
  | nil =>
      cases bs' with
      | nil => rfl
      | cons b' bs' =>
          simp only [codeOf] at h
          omega
  | cons b bs ih =>
      cases bs' with
      | nil =>
          simp only [codeOf] at h
          omega
      | cons b' bs' =>
          have hb := b.toNat_lt
          have hb' := b'.toNat_lt
          simp only [codeOf] at h
          have hhead : b.toNat = b'.toNat := by omega
          have htail : codeOf bs = codeOf bs' := by omega
          rw [UInt8.toNat_inj.mp hhead, ih htail]

/-- The number of a path. -/
def pathCode (p : Path) : Nat := codeOf p.text.toByteArray.data.toList

theorem pathCount_eq : pathCount = 256 ^ pathLimit := by
  unfold pathCount
  -- The power is not to be computed.
  generalize pathLimit = n
  exact Nat.pow_eq

theorem pathCode_lt {p : Path} (h : p.text.utf8ByteSize < pathLimit) :
    pathCode p < pathCount := by
  have hlen : p.text.toByteArray.data.toList.length + 1 ≤ pathLimit := h
  have hpow := Nat.pow_le_pow_right (n := 256) (by decide) hlen
  have hcode := codeOf_add_le p.text.toByteArray.data.toList
  rw [pathCode, pathCount_eq]
  omega

theorem pathCode_inj {p q : Path} (h : pathCode p = pathCode q) : p = q := by
  have hbytes := Array.toList_inj.mp (codeOf_inj h)
  have htext := String.toByteArray_inj.mp (ByteArray.ext hbytes)
  exact congrArg Path.mk htext

/-! ### Names in a store -/

/-- The parts of a text. -/
def partsOf (cs : List Char) : List (List Char) := cs.tails.flatMap List.inits

theorem mem_partsOf {part cs : List Char} : part ∈ partsOf cs ↔ part <:+: cs := by
  simp only [partsOf, List.mem_flatMap, List.mem_tails, List.mem_inits,
    List.infix_iff_prefix_suffix]
  exact exists_congr fun t => and_comm

theorem length_partsOf_le (cs : List Char) : (partsOf cs).length ≤ (cs.length + 1) ^ 2 := by
  rw [partsOf, List.length_flatMap]
  have hsum : ((cs.tails.map fun t => t.inits.length).sum) ≤ cs.tails.length * (cs.length + 1) := by
    have hle : ∀ n ∈ cs.tails.map fun t => t.inits.length, n ≤ cs.length + 1 := by
      intro n hn
      obtain ⟨t, ht, rfl⟩ := List.mem_map.mp hn
      have hlen := ((List.mem_tails _ _).mp ht).length_le
      rw [List.length_inits]
      omega
    have hcard := List.sum_le_card_nsmul _ _ hle
    rwa [List.length_map, nsmul_eq_mul, Nat.cast_id] at hcard
  rw [List.length_tails] at hsum
  rw [pow_two]
  exact hsum

/-- The parts of the text that an entry is. -/
def partsAt : Entry → List (List Char)
  | .file (.text t) => partsOf t.toList
  | _ => []

/-- The parts of all texts in a store. -/
def names (s : Store) : List (List Char) := s.entries.flatMap fun e => partsAt e.2

/-- The size of an entry. -/
def sizeAt : Entry → Nat
  | .file c => c.size
  | _ => 0

theorem length_le_utf8Len (cs : List Char) : cs.length ≤ String.utf8Len cs := by
  induction cs with
  | nil => simp
  | cons c cs ih =>
      have hc := c.utf8Size_pos
      rw [String.utf8Len_cons, List.length_cons]
      omega

theorem length_partsAt_le (e : Entry) : (partsAt e).length ≤ (sizeAt e + 1) ^ 2 := by
  cases e with
  | file c =>
      cases c with
      | text t =>
          have hsize : t.toList.length ≤ sizeAt (.file (.text t)) := by
            have hlen := length_le_utf8Len t.toList
            rw [String.utf8Len_toList] at hlen
            exact hlen
          exact (length_partsOf_le _).trans (Nat.pow_le_pow_left (by omega) 2)
      | binary bytes => simp [partsAt]
  | directory => simp [partsAt]
  | link target => simp [partsAt]

theorem totalSize_eq (s : Store) : s.totalSize = (s.entries.map fun e => sizeAt e.2).sum := by
  have h : ∀ (es : List (Place × Entry)) (n : Nat),
      es.foldl (fun n e => match e.2 with | .file c => n + c.size | _ => n) n =
        n + (es.map fun e => sizeAt e.2).sum := by
    intro es
    induction es with
    | nil => simp
    | cons e es ih =>
        intro n
        rw [List.foldl_cons, ih, List.map_cons, List.sum_cons]
        cases e.2 <;> simp [sizeAt, Nat.add_assoc]
  exact (h s.entries 0).trans (Nat.zero_add _)

/-- The parts of the texts of some files are no more than the square of the room they take. -/
theorem length_names_le (s : Store) :
    s.names.length ≤ (s.totalSize + s.entries.length) ^ 2 := by
  rw [totalSize_eq, names]
  induction s.entries with
  | nil => simp
  | cons e es ih =>
      have he := length_partsAt_le e.2
      rw [List.flatMap_cons, List.length_append, List.map_cons, List.sum_cons, List.length_cons]
      calc (partsAt e.2).length + (es.flatMap fun e => partsAt e.2).length
        _ ≤ (sizeAt e.2 + 1) ^ 2 + ((es.map fun e => sizeAt e.2).sum + es.length) ^ 2 :=
          Nat.add_le_add he ih
        _ ≤ ((sizeAt e.2 + 1) + ((es.map fun e => sizeAt e.2).sum + es.length)) ^ 2 := by
          rw [add_sq' (sizeAt e.2 + 1)]
          exact Nat.le_add_right _ _
        _ = (sizeAt e.2 + (es.map fun e => sizeAt e.2).sum + (es.length + 1)) ^ 2 := by ring

/-! ### Links -/

/-- The names in a store, each in a path that can be followed, as a number. -/
def links (s : Store) : Finset (Nat × List Char) :=
  Finset.range pathCount ×ˢ s.names.toFinset

theorem mem_links {s : Store} {n : Nat} {part : List Char} :
    (n, part) ∈ s.links ↔ n < pathCount ∧ part ∈ s.names := by
  rw [links, Finset.mem_product, Finset.mem_range, List.mem_toFinset]

theorem card_links_le (s : Store) :
    s.links.card ≤ pathCount * (s.totalSize + s.entries.length) ^ 2 := by
  rw [links, Finset.card_product, Finset.card_range]
  exact Nat.mul_le_mul_left _ ((List.toFinset_card_le _).trans (length_names_le s))

end Store

namespace Expansion

open TypeMember

/-- A name in a source as a link. -/
def linkOf (m : Source) (name : String) : Nat × List Char := (Store.pathCode m.path, name.toList)

theorem placeOf_eq_of_linkOf {m m' : Source} {name name' : String}
    (h : linkOf m name = linkOf m' name') : placeOf m name = placeOf m' name' := by
  obtain ⟨hpath, hname⟩ := Prod.mk.inj h
  rw [placeOf, placeOf, Store.pathCode_inj hpath, String.toList_inj.mp hname]

/-- A name that stands in a source is a link, in whichever source it is looked for. -/
theorem linkOf_mem_of_infix {s : Store} {m m' : Source} {name : String} (hm : m.ReadIn s)
    (hm' : m'.ReadIn s) (h : name.toList <:+: m.text.toList) : linkOf m' name ∈ s.links := by
  obtain ⟨e, he, htext⟩ := hm.file
  have hpart : name.toList ∈ Store.partsAt e.2 := by
    rw [htext]
    exact Store.mem_partsOf.mpr h
  rw [linkOf, Store.mem_links]
  exact ⟨Store.pathCode_lt hm'.path.2.2, List.mem_flatMap.mpr ⟨e, he, hpart⟩⟩

/-- What a name that is imported leads to is a link. -/
theorem linkOf_mem {s : Store} {m m' : Source} {name specifier imported : String}
    (hm : m.ReadIn s) (hi : import? m name = some (specifier, imported))
    (hl : s.lookup m.path specifier = .found m') : linkOf m' imported ∈ s.links :=
  linkOf_mem_of_infix hm (Store.readIn_of_lookup hl) (hm.infix_of_import hi)

/-- What a chain has behind it: different links, each of a place that is being written out. -/
structure Chain (links : Finset (Nat × List Char)) (places : List Place)
    (behind : List (Nat × List Char)) : Prop where
  /-- The links are different. -/
  nodup : behind.Nodup
  /-- They are links. -/
  subset : ∀ l ∈ behind, l ∈ links
  /-- They are of places that are being written out. -/
  placed : ∀ l ∈ behind, ∃ m name, l = linkOf m name ∧ placeOf m name ∈ places

namespace Chain

variable {links : Finset (Nat × List Char)} {places : List Place} {behind : List (Nat × List Char)}
  {m : Source} {name : String}

/-- A chain goes on to a place that is not being written out yet. -/
theorem cons (h : Chain links places behind) (hl : linkOf m name ∈ links)
    (hnew : placeOf m name ∉ places) :
    Chain links (placeOf m name :: places) (linkOf m name :: behind) := by
  refine ⟨List.nodup_cons.mpr ⟨fun hmem => ?_, h.nodup⟩, fun l hmem => ?_, fun l hmem => ?_⟩
  · obtain ⟨m', name', heq, hplace⟩ := h.placed _ hmem
    exact hnew (placeOf_eq_of_linkOf heq ▸ hplace)
  · rcases List.mem_cons.mp hmem with rfl | hmem
    · exact hl
    · exact h.subset l hmem
  · rcases List.mem_cons.mp hmem with rfl | hmem
    · exact ⟨m, name, rfl, List.mem_cons_self⟩
    · obtain ⟨m', name', heq, hplace⟩ := h.placed l hmem
      exact ⟨m', name', heq, List.mem_cons_of_mem _ hplace⟩

theorem length_le (h : Chain links places behind) : behind.length ≤ links.card := by
  rw [← List.toFinset_card_of_nodup h.nodup]
  exact Finset.card_le_card fun l hl => h.subset l (List.mem_toFinset.mp hl)

end Chain

/-- Two bounds that the links ahead do not use up lead to the same. -/
theorem locate_eq_of_chain {s : Store} {links : Finset (Nat × List Char)} (hsub : s.links ⊆ links)
    {reach reach' : Nat} {places : List Place} {behind : List (Nat × List Char)}
    (hc : Chain links places behind) {m : Source} {name : String} (hm : m.ReadIn s)
    (hl : linkOf m name ∈ links) (h : links.card ≤ reach + behind.length)
    (h' : links.card ≤ reach' + behind.length) :
    locate s.modules reach places m name = locate s.modules reach' places m name := by
  induction reach generalizing reach' places behind m name with
  | zero =>
      unfold locate
      by_cases hseen : places.contains (placeOf m name) = true
      · rw [if_pos hseen, if_pos hseen]
      · have hlen := (hc.cons hl fun hmem => hseen (List.contains_iff_mem.mpr hmem)).length_le
        rw [List.length_cons] at hlen
        omega
  | succ reach ih =>
      unfold locate
      by_cases hseen : places.contains (placeOf m name) = true
      · rw [if_pos hseen, if_pos hseen]
      · have hc' := hc.cons hl fun hmem => hseen (List.contains_iff_mem.mpr hmem)
        have hlen := hc'.length_le
        rw [List.length_cons] at hlen
        obtain ⟨reach', rfl⟩ : ∃ n, reach' = n + 1 := ⟨reach' - 1, by omega⟩
        rw [if_neg hseen, if_neg hseen]
        cases declaration? m name with
        | some d => rfl
        | none =>
            cases hi : import? m name with
            | none => rfl
            | some found =>
                obtain ⟨specifier, imported⟩ := found
                cases hfound : s.modules.lookup m.path specifier with
                | missing => simp only [hfound]
                | refused d t => simp only [hfound]
                | found m' =>
                    have hleft : links.card ≤ reach' + (linkOf m name :: behind).length := by
                      rw [List.length_cons]
                      omega
                    have hnext := ih hc' (Store.readIn_of_lookup hfound)
                      (hsub (linkOf_mem hm hi hfound)) (by rw [List.length_cons]; omega) hleft
                    simp only [hfound, hnext]

/-- The bound that a store gives is never used up: with more, nothing else is found. -/
theorem locate_of_reach {s : Store} {m : Source} (hm : m.ReadIn s) (places : List Place)
    (name : String) {reach : Nat} (h : s.modules.reach ≤ reach) :
    locate s.modules reach places m name =
      locate s.modules s.modules.reach places m name := by
  have hcard : (insert (linkOf m name) s.links).card ≤ s.modules.reach :=
    (Finset.card_insert_le _ _).trans (Nat.add_le_add_right s.card_links_le 1)
  have hc : Chain (insert (linkOf m name) s.links) places [] :=
    ⟨List.nodup_nil, fun _ h => absurd h List.not_mem_nil, fun _ h => absurd h List.not_mem_nil⟩
  refine locate_eq_of_chain (Finset.subset_insert _ _) hc hm (Finset.mem_insert_self _ _) ?_ ?_
  · exact hcard.trans h
  · exact hcard

end Expansion

end Trellis
