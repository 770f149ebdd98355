import Mathlib.Data.List.Induction
import Mathlib.Data.List.Nodup
import Mathlib.Data.List.Perm.Basic
import Mathlib.Tactic.Tauto
import Trellis.Proofs.Contract.Components

/-! # Props from their mentions

The props of a component are built up one mention at a time. What comes out does not depend on the
way there.

* `Mention.merged` is a prop in closed form: its last declaration with a concrete type or, if there
  is none, its last one settles the type, and any mention may give it a default.
* `Mention.run_eq`: the props are the mentioned names in order of their first mention, each of them
  merged. A step of the run is a step of the closed form (`Mention.apply_merged`).
* `Mention.Rearranged` says that two rows hold the same mentions, with the declarations of each prop
  in one order. Then the props are the same, perhaps in another order (`Rearranged.perm_run`).
* `Mention.inClosedForm` joins them, for any row of mentions. -/

namespace Trellis

open Syntax
open Markup (distinct)

/-! ### First occurrences -/

namespace Markup

theorem mem_distinct {s : String} {ss : List String} : s ∈ distinct ss ↔ s ∈ ss := by
  refine ⟨mem_of_mem_distinct, fun h => ?_⟩
  induction ss with
  | nil => exact h
  | cons t ss ih =>
      by_cases hst : s = t
      · rw [hst, distinct]
        exact List.mem_cons_self
      · have hmem := ih ((List.mem_cons.mp h).resolve_left hst)
        exact List.mem_cons_of_mem _ (List.mem_filter.mpr ⟨hmem, by simpa using hst⟩)

/-- A text counts only if it is new. -/
theorem distinct_concat (ss : List String) (s : String) :
    distinct (ss ++ [s]) = if s ∈ ss then distinct ss else distinct ss ++ [s] := by
  induction ss with
  | nil => rfl
  | cons t ss ih =>
      by_cases hst : s = t
      · have hfilter : (distinct (ss ++ [s])).filter (· ≠ t) = (distinct ss).filter (· ≠ t) := by
          rw [ih]
          split
          · rfl
          · simp [List.filter_append, hst]
        rw [if_pos (hst ▸ List.mem_cons_self), List.cons_append, distinct, hfilter, distinct]
      · have hmem : s ∈ t :: ss ↔ s ∈ ss := by simp [hst]
        rw [List.cons_append, distinct, ih, distinct]
        simp only [hmem]
        split
        · rfl
        · simp [List.filter_append, hst]

theorem nodup_distinct (ss : List String) : (distinct ss).Nodup := by
  induction ss with
  | nil => exact List.nodup_nil
  | cons s ss ih =>
      rw [distinct, List.nodup_cons]
      exact ⟨fun hs => absurd rfl (of_decide_eq_true (List.mem_filter.mp hs).2), ih.filter _⟩

end Markup

/-! ### Mentions of a prop -/

namespace Mention

/-- The prop that is mentioned. -/
def name : Mention → String
  | typed m => m.name
  | seen name _ => name

/-- The declaration that a mention with a type is. -/
def declaration? : Mention → Option PropMember
  | typed m => some m
  | seen _ _ => none

/-- Whether a mention tells of a value for a prop that is left out. -/
def givesDefault : Mention → Bool
  | typed m => m.hasDefault
  | seen _ hasDefault => hasDefault

/-- The declarations of a prop, in order. -/
def declarations (ms : List Mention) (n : String) : List PropMember :=
  (ms.filterMap declaration?).filter (·.name = n)

/-- The last declaration of a prop with a concrete type or, if there is none, the last one. -/
def settling? (ms : List Mention) (n : String) : Option PropMember :=
  ((declarations ms n).filter fun d => !PropMember.isVague d.type).getLast?.or
    (declarations ms n).getLast?

/-- The declaration that settles a prop; of a prop without one nothing is known. -/
def settled (ms : List Mention) (n : String) : PropMember := (settling? ms n).getD (.untyped n false)

/-- Whether any mention of a prop tells of a value for when it is left out. -/
def hasDefault (ms : List Mention) (n : String) : Bool :=
  ms.any fun m => m.name = n && m.givesDefault

/-- A prop in closed form. -/
def merged (ms : List Mention) (n : String) : PropMember :=
  { settled ms n with hasDefault := hasDefault ms n }

/-- What a mention changes of what is known of its prop. -/
def change : Mention → PropMember → PropMember
  | typed d, old => old.combine d
  | seen _ hasDefault, old => { old with hasDefault := old.hasDefault || hasDefault }

/-- The first mention of a prop changes one of which nothing is known. -/
theorem apply_eq (ms : List PropMember) (m : Mention) :
    apply ms m = PropMembers.update m.name m.change (m.change (.untyped m.name false)) ms := by
  cases m with
  | typed d =>
      have hd : (PropMember.untyped d.name false).combine d = d := by
        have hvague : PropMember.isVague (PropMember.untyped d.name false).type = true := rfl
        rw [PropMember.combine, hvague, Bool.not_true, Bool.and_false, if_neg Bool.false_ne_true]
        rfl
      exact congrArg (PropMembers.update d.name (·.combine d) · ms) hd.symm
  | seen name b => rfl

/-- The props after some mentions. -/
def run (ms : List Mention) : List PropMember := ms.foldl apply []

/-! ### One more mention -/

section concat
variable (ms : List Mention) (m : Mention) (d : PropMember) {n : String}

theorem declarations_concat_of_ne (h : m.name ≠ n) :
    declarations (ms ++ [m]) n = declarations ms n := by
  rw [declarations, List.filterMap_append, List.filter_append]
  cases m with
  | typed d =>
      have hd : ¬ decide (d.name = n) = true := mt of_decide_eq_true h
      rw [show [typed d].filterMap declaration? = [d] from rfl, List.filter_cons, if_neg hd,
        List.filter_nil, List.append_nil, declarations]
  | seen _ _ => exact List.append_nil _

theorem declarations_concat_seen (name : String) (b : Bool) (n : String) :
    declarations (ms ++ [seen name b]) n = declarations ms n := by
  rw [declarations, List.filterMap_append, List.filter_append]
  exact List.append_nil _

theorem declarations_concat_typed :
    declarations (ms ++ [typed d]) d.name = declarations ms d.name ++ [d] := by
  have hd : decide (d.name = d.name) = true := decide_eq_true rfl
  rw [declarations, List.filterMap_append, List.filter_append, declarations]
  refine congrArg _ ?_
  rw [show [typed d].filterMap declaration? = [d] from rfl, List.filter_cons, if_pos hd,
    List.filter_nil]

theorem hasDefault_concat (n : String) :
    hasDefault (ms ++ [m]) n = (hasDefault ms n || (m.name = n && m.givesDefault)) := by
  rw [hasDefault, List.any_append, hasDefault, List.any_cons, List.any_nil, Bool.or_false]

theorem merged_concat_of_ne (h : m.name ≠ n) : merged (ms ++ [m]) n = merged ms n := by
  rw [merged, merged, settled, settled, settling?, settling?, declarations_concat_of_ne ms m h,
    hasDefault_concat, decide_eq_false h, Bool.false_and, Bool.or_false]

/-- A mention without a type may only give a default. -/
theorem merged_concat_seen (name : String) (b : Bool) :
    merged (ms ++ [seen name b]) name = (seen name b).change (merged ms name) := by
  have hb : (decide ((seen name b).name = name) && (seen name b).givesDefault) = b := by
    simp [Mention.name, givesDefault]
  rw [merged, merged, settled, settled, settling?, settling?, declarations_concat_seen,
    hasDefault_concat, hb, change]

/-- What settles a prop tells something, unless all its declarations are vague. -/
theorem isVague_settling {d : PropMember} (h : settling? ms n = some d) :
    PropMember.isVague d.type = true ↔
      ((declarations ms n).filter fun d => !PropMember.isVague d.type) = [] := by
  rw [settling?, Option.or_eq_some_iff] at h
  rcases h with h | ⟨hnone, hd⟩
  · have hmem := List.mem_filter.mp (List.mem_of_getLast? h)
    have hne := List.ne_nil_of_mem (List.mem_of_getLast? h)
    simp only [Bool.not_eq_true'] at hmem
    simp only [hmem.2, hne, Bool.false_eq_true]
  · rw [List.getLast?_eq_none_iff] at hnone
    have hall := List.filter_eq_nil_iff.mp hnone d (List.mem_of_getLast? hd)
    rw [hnone, eq_self, iff_true]
    simpa using hall

/-- What settles a prop is one of its declarations. -/
theorem mem_declarations_of_settling {d : PropMember} (h : settling? ms n = some d) :
    d ∈ declarations ms n := by
  rw [settling?, Option.or_eq_some_iff] at h
  rcases h with h | ⟨-, h⟩
  · exact (List.mem_filter.mp (List.mem_of_getLast? h)).1
  · exact List.mem_of_getLast? h

theorem name_of_settling {d : PropMember} (h : settling? ms n = some d) : d.name = n := by
  simpa using (List.mem_filter.mp (mem_declarations_of_settling ms h)).2

theorem merged_name (n : String) : (merged ms n).name = n := by
  change (settled ms n).name = n
  rw [settled]
  cases h : settling? ms n with
  | none => rfl
  | some d => exact name_of_settling ms h

/-- A new declaration settles a prop if it tells something, or if nothing was told before. -/
theorem settling?_concat_typed : settling? (ms ++ [typed d]) d.name =
    if PropMember.isVague d.type ∧
      ((declarations ms d.name).filter fun d => !PropMember.isVague d.type) ≠ []
    then settling? ms d.name else some d := by
  rw [settling?, settling?, declarations_concat_typed, List.filter_append, List.getLast?_append,
    List.getLast?_concat]
  cases hd : PropMember.isVague d.type with
  | false => simp [hd]
  | true =>
      cases hlast : ((declarations ms d.name).filter fun d => !PropMember.isVague d.type).getLast? with
      | none =>
          rw [List.getLast?_eq_none_iff] at hlast
          simp [hd, hlast]
      | some c =>
          have hne := List.ne_nil_of_mem (List.mem_of_getLast? hlast)
          rw [if_pos ⟨rfl, hne⟩]
          simp [hd]

/-- A declaration of a prop is combined with what is known of it. -/
theorem merged_concat_typed :
    merged (ms ++ [typed d]) d.name = (typed d).change (merged ms d.name) := by
  have hdefault : hasDefault (ms ++ [typed d]) d.name = (hasDefault ms d.name || d.hasDefault) := by
    rw [hasDefault_concat]
    simp [Mention.name, givesDefault]
  have htype : PropMember.isVague (merged ms d.name).type = true ↔
      ((declarations ms d.name).filter fun d => !PropMember.isVague d.type) = [] := by
    change PropMember.isVague (settled ms d.name).type = true ↔ _
    rw [settled]
    cases hs : settling? ms d.name with
    | none =>
        have hnil := List.getLast?_eq_none_iff.mp (Option.or_eq_none_iff.mp hs).1
        exact ⟨fun _ => hnil, fun _ => rfl⟩
    | some c => exact isVague_settling ms hs
  have hname : d.name = (merged ms d.name).name := (merged_name ms d.name).symm
  rw [change, PropMember.combine]
  by_cases hkeep : PropMember.isVague d.type ∧
      ((declarations ms d.name).filter fun d => !PropMember.isVague d.type) ≠ []
  · have hconcrete : PropMember.isVague (merged ms d.name).type = false :=
      Bool.eq_false_iff.mpr fun h => hkeep.2 (htype.mp h)
    rw [hkeep.1, hconcrete, if_pos (by rfl), merged, settled, settling?_concat_typed, if_pos hkeep,
      hdefault]
    rfl
  · have hreplace : ¬ (PropMember.isVague d.type &&
        !PropMember.isVague (merged ms d.name).type) = true := by
      rw [Bool.and_eq_true, Bool.not_eq_true', ← Bool.not_eq_true, htype]
      exact hkeep
    rw [if_neg hreplace, merged, settled, settling?_concat_typed, if_neg hkeep, hdefault,
      Option.getD_some, ← hname]
    rfl

theorem merged_concat : merged (ms ++ [m]) m.name = m.change (merged ms m.name) := by
  cases m with
  | typed d => exact merged_concat_typed ms d
  | seen name b => exact merged_concat_seen ms name b

end concat

/-! ### A run -/

/-- A prop that was not mentioned before has no declarations. -/
theorem merged_of_new {ms : List Mention} {n : String} (h : n ∉ ms.map name) :
    merged ms n = .untyped n false := by
  have hnone : declarations ms n = [] := by
    refine List.filter_eq_nil_iff.mpr fun d hd => ?_
    obtain ⟨m, hm, hmd⟩ := List.mem_filterMap.mp hd
    cases m with
    | seen _ _ => cases hmd
    | typed d' =>
        cases hmd
        exact fun hn => h (List.mem_map.mpr ⟨_, hm, of_decide_eq_true hn⟩)
  have hdefault : hasDefault ms n = false := by
    rw [hasDefault, List.any_eq_false]
    intro m hm hn
    rw [Bool.and_eq_true, decide_eq_true_eq] at hn
    exact h (List.mem_map.mpr ⟨m, hm, hn.1⟩)
  rw [merged, settled, settling?, hnone, hdefault]
  rfl

/-- A change of a prop, in a list of props that are known by their names. -/
theorem update_map {f : String → PropMember} (hf : ∀ n, (f n).name = n) {n : String}
    (change : PropMember → PropMember) (added : PropMember) {ns : List String} (h : ns.Nodup) :
    PropMembers.update n change added (ns.map f) =
      if n ∈ ns then ns.map fun x => if x = n then change (f x) else f x
      else ns.map f ++ [added] := by
  induction ns with
  | nil => rfl
  | cons x ns ih =>
      obtain ⟨hx, hns⟩ := List.nodup_cons.mp h
      rw [List.map_cons, PropMembers.update, hf]
      by_cases hxn : x = n
      · subst hxn
        rw [if_pos rfl, if_pos List.mem_cons_self, List.map_cons, if_pos rfl]
        refine congrArg _ (List.map_congr_left fun y hy => (if_neg ?_).symm)
        rintro rfl
        exact hx hy
      · have hmem : n ∈ x :: ns ↔ n ∈ ns := by simp [Ne.symm hxn]
        rw [if_neg hxn, ih hns, List.map_cons, if_neg hxn]
        simp only [hmem]
        split <;> rfl

/-- What a mention does to props in closed form. -/
theorem apply_merged (ms : List Mention) (m : Mention) :
    apply ((distinct (ms.map name)).map (merged ms)) m =
      (distinct ((ms ++ [m]).map name)).map (merged (ms ++ [m])) := by
  have hothers {n : String} (hn : n ≠ m.name) : merged (ms ++ [m]) n = merged ms n :=
    merged_concat_of_ne ms m (Ne.symm hn)
  rw [apply_eq, update_map (merged_name ms) _ _ (Markup.nodup_distinct _), List.map_append,
    List.map_cons, List.map_nil, Markup.distinct_concat]
  simp only [Markup.mem_distinct]
  split
  · refine List.map_congr_left fun n _ => ?_
    split
    · next hn => rw [hn, merged_concat]
    · next hn => rw [hothers hn]
  · next hnew =>
    rw [List.map_append, List.map_cons, List.map_nil, merged_concat, merged_of_new hnew]
    refine congrArg (· ++ _) (List.map_congr_left fun n hn => (hothers ?_).symm)
    rintro rfl
    exact hnew (Markup.mem_distinct.mp hn)

/-- The props are the mentioned names, each of them merged. -/
theorem run_eq (ms : List Mention) : run ms = (distinct (ms.map name)).map (merged ms) := by
  induction ms using List.reverseRecOn with
  | nil => rfl
  | append_singleton ms m ih =>
      rw [run, List.foldl_append, ← run, ih]
      exact apply_merged ms m

/-! ### Another order -/

/-- Whether two rows hold the same mentions, with the declarations of each prop in one order. -/
structure Rearranged (ms ms' : List Mention) : Prop where
  /-- They hold the same mentions. -/
  perm : ms.Perm ms'
  /-- The declarations of each prop are in one order. -/
  declarations : ∀ n, declarations ms n = declarations ms' n

namespace Rearranged

variable {ms ms' : List Mention}

theorem merged_eq (h : Rearranged ms ms') : merged ms = merged ms' := by
  funext n
  have hdefault : hasDefault ms n = hasDefault ms' n := h.perm.any_eq
  rw [merged, merged, settled, settled, settling?, settling?, h.declarations n, hdefault]

/-- The props are the same, perhaps in another order. -/
theorem perm_run (h : Rearranged ms ms') : (run ms).Perm (run ms') := by
  have hnames : (distinct (ms.map name)).Perm (distinct (ms'.map name)) := by
    rw [List.perm_ext_iff_of_nodup (Markup.nodup_distinct _) (Markup.nodup_distinct _)]
    intro n
    rw [Markup.mem_distinct, Markup.mem_distinct, (h.perm.map name).mem_iff]
  rw [run_eq, run_eq, h.merged_eq]
  exact hnames.map _

/-- Mentions without a type may stand anywhere. -/
theorem of_moved {before moved between after : List Mention}
    (h : ∀ m ∈ moved, m.declaration? = none) :
    Rearranged (before ++ (moved ++ (between ++ after)))
      (before ++ (between ++ (moved ++ after))) where
  perm := by
    rw [← List.append_assoc moved, ← List.append_assoc between]
    exact (List.perm_append_comm.append_right after).append_left before
  declarations n := by
    have hnone : moved.filterMap declaration? = [] := List.filterMap_eq_nil_iff.mpr h
    simp only [Mention.declarations, List.filterMap_append, hnone, List.nil_append]

end Rearranged

/-! ### The closed form -/

/-- The props that some mentions describe. -/
def finished (ms : List Mention) : List ComponentProp := (run ms).map PropMember.finish

/-- What comes out of some mentions. -/
structure InClosedForm (ms : List Mention) : Prop where
  /-- The names are those that are mentioned, in order of their first mention. -/
  names : (finished ms).map (·.name) = distinct (ms.map name)
  /-- No two props share a name. -/
  nodup : ((finished ms).map (·.name)).Nodup
  /-- A prop has what its settling declaration says, and a default if any mention gives it one. -/
  members : run ms = (distinct (ms.map name)).map fun n =>
    { settled ms n with hasDefault := hasDefault ms n }
  /-- A prop is the conclusion from this. -/
  concluded : ∀ p ∈ finished ms, p = (merged ms p.name).finish ∧ p.type = (settled ms p.name).type
  /-- A prop is required unless its declaration or type says otherwise or a mention gives a
  default. -/
  required : ∀ p ∈ finished ms, p.isRequired = true ↔
    (settled ms p.name).optional = false ∧
      TypeText.includesUndefined (settled ms p.name).type = false ∧
      ∀ m ∈ ms, m.name = p.name → m.givesDefault = false
  /-- What is said in another order describes the same props. -/
  rearranged : ∀ ms', Rearranged ms ms' → (finished ms).Perm (finished ms')

theorem hasDefault_eq_false {ms : List Mention} {n : String} :
    hasDefault ms n = false ↔ ∀ m ∈ ms, m.name = n → m.givesDefault = false := by
  rw [hasDefault, List.any_eq_false]
  refine forall₂_congr fun m _ => ?_
  rw [Bool.and_eq_true, decide_eq_true_eq, not_and, Bool.not_eq_true]

theorem inClosedForm (ms : List Mention) : InClosedForm ms := by
  have hnames : (finished ms).map (·.name) = distinct (ms.map name) := by
    have hname : (fun p : ComponentProp => p.name) ∘ PropMember.finish ∘ merged ms = id :=
      funext fun n => merged_name ms n
    rw [finished, run_eq, List.map_map, List.map_map, Function.comp_assoc, hname, List.map_id]
  have hfinish {p : ComponentProp} (hp : p ∈ finished ms) : p = (merged ms p.name).finish := by
    rw [finished, run_eq, List.map_map] at hp
    obtain ⟨n, -, rfl⟩ := List.mem_map.mp hp
    exact congrArg (fun x => (merged ms x).finish) (merged_name ms n).symm
  refine ⟨hnames, hnames ▸ Markup.nodup_distinct _, run_eq ms,
    fun p hp => ⟨hfinish hp, congrArg ComponentProp.type (hfinish hp)⟩, fun p hp => ?_,
    fun ms' h => h.perm_run.map _⟩
  have hrequired : p.isRequired = !(hasDefault ms p.name || (settled ms p.name).optional ||
      TypeText.includesUndefined (settled ms p.name).type) :=
    congrArg ComponentProp.isRequired (hfinish hp)
  rw [hrequired, Bool.not_eq_true', Bool.or_eq_false_iff, Bool.or_eq_false_iff, hasDefault_eq_false]
  tauto

end Mention

end Trellis
