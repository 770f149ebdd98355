import Trellis.Placement.Write

/-! # Generated modules carry the marker

Every generated module begins with its header line, and so it is known as generated.

* `Layout.suffix_renderRev` and `Layout.suffix_finishRev`: a line that is not blank stays at the
  start of a text, whatever items follow and also when the text is finished. Texts are built
  reversed, so the line is a suffix.
* `Suite.text_eq`: a module is its header line and what follows.
* `Placement.carriesMarker_text`: a module carries the marker. -/

namespace Trellis

/-! ### The start of a rendered text -/

namespace Layout

/-- Whether a reversed text ends in a line that is not blank. -/
def EndsLine (rev : List Char) : Prop := ∃ c rest, rev = '\n' :: c :: rest ∧ c ≠ '\n'

section suffixes
variable {start : List Char}

/-- A blank line after the start is no part of it. -/
theorem EndsLine.suffix_of_blank (h : EndsLine start) {rest : List Char}
    (hs : start <:+ '\n' :: '\n' :: rest) : start <:+ '\n' :: rest := by
  rcases List.suffix_cons_iff.mp hs with e | hs
  · obtain ⟨c, more, rfl, hc⟩ := h
    rw [List.cons.injEq, List.cons.injEq] at e
    exact absurd e.2.1 hc
  · exact hs

theorem EndsLine.suffix_dropGap (h : EndsLine start) {rev : List Char} (hs : start <:+ rev) :
    start <:+ dropGap rev := by
  unfold dropGap
  split
  · exact h.suffix_of_blank hs
  · exact hs

theorem EndsLine.suffix_addGap {rev : List Char} (hs : start <:+ rev) : start <:+ addGap rev := by
  unfold addGap
  split
  · exact hs
  · exact hs
  · exact hs.trans (List.suffix_cons _ _)

theorem EndsLine.suffix_put (h : EndsLine start) {rev : List Char} (hs : start <:+ rev)
    (item : Layout) : start <:+ put rev item := by
  cases item with
  | line depth text => exact hs.trans (List.suffix_append _ _)
  | closing depth text => exact (h.suffix_dropGap hs).trans (List.suffix_append _ _)
  | gap => exact suffix_addGap hs

/-- Items that follow leave the start of a text as it is. -/
theorem EndsLine.suffix_foldl_put (h : EndsLine start) {rev : List Char} (hs : start <:+ rev)
    (items : List Layout) : start <:+ items.foldl put rev := by
  induction items generalizing rev with
  | nil => exact hs
  | cons item items ih => exact ih (h.suffix_put hs item)

/-- Finishing a text leaves its start as it is. -/
theorem EndsLine.suffix_finishRev (h : EndsLine start) {rev : List Char} (hs : start <:+ rev) :
    start <:+ finishRev rev := by
  induction rev using finishRev.induct with
  | case1 rest ih =>
      rw [finishRev]
      exact ih (h.suffix_of_blank hs)
  | case2 rev hrev =>
      rw [finishRev]
      · exact hs
      · exact hrev

end suffixes

/-- A finished text begins with the first line of its first part, if that line is not blank. -/
theorem prefix_finish {line : List Char} (h : EndsLine (line ++ ['\n']).reverse) {text : String}
    (ht : lineChars 0 text = line ++ ['\n']) (items : List Layout) (more : List Char) :
    line ++ ['\n'] <+: finish (render (.line 0 text :: items) ++ more) := by
  have hs : (line ++ ['\n']).reverse <:+ renderRev (.line 0 text :: items) := by
    have hput : put [] (.line 0 text) = (line ++ ['\n']).reverse := by
      rw [put, ht, List.append_nil]
    exact h.suffix_foldl_put (hput ▸ List.suffix_rfl) items
  have hf := h.suffix_finishRev (hs.trans (List.suffix_append more.reverse _))
  rw [finish, render, List.reverse_append, List.reverse_reverse]
  rw [← List.reverse_suffix, List.reverse_reverse]
  exact hf

end Layout

/-! ### Modules -/

theorem Text.Search.splitWhere_of_none {p : Char → Bool} {line : List Char}
    (hline : ∀ x ∈ line, p x = false) : splitWhere p line = [line] := by
  induction line with
  | nil => rfl
  | cons d line ih =>
      have hd := hline d List.mem_cons_self
      rw [splitWhere, ih fun x hx => hline x (List.mem_cons_of_mem _ hx)]
      dsimp only
      rw [hd, if_neg Bool.false_ne_true]

/-- A module is its header line and what follows. -/
theorem Suite.text_eq (s : Settings) (target : Target) (pass : Pass) (cs : List Component) :
    ∃ rest, (text s target pass cs).toList = header.toList ++ '\n' :: rest := by
  have hends : Layout.EndsLine (header.toList ++ ['\n']).reverse :=
    ⟨'.', header.toList.dropLast.reverse, by decide +kernel, by decide⟩
  have hline : Layout.lineChars 0 header = header.toList ++ ['\n'] := by decide +kernel
  obtain ⟨rest, h⟩ := Layout.prefix_finish hends hline
    ([.line 0 (sourceLine target pass), .gap] ++
      (imports s target cs (cs.map (Group.ofComponent s pass))).map (.line 0) ++ [.gap])
    (Layout.render (bodyLayout s target.typed (cs.map (Group.ofComponent s pass))))
  refine ⟨rest, ?_⟩
  rw [List.append_assoc] at h
  rw [text, String.toList_ofList]
  exact h.symm

namespace Placement

/-- A text whose first line is the header carries the marker. -/
theorem carriesMarker_of_header {text : String} {rest : List Char}
    (h : text.toList = Suite.header.toList ++ '\n' :: rest) : carriesMarker text = true := by
  have hno : '\n' ∉ Suite.header.toList := by decide
  have hline : ∀ x ∈ Suite.header.toList, decide (x = '\n') = false := fun x hx =>
    decide_eq_false fun e => hno (e ▸ hx)
  have hfirst : firstLine? text.toList = some Suite.header.toList := by
    rw [firstLine?, h, Text.Search.splitWhere_append_cons (by decide),
      Text.Search.splitWhere_of_none hline]
    exact List.find?_cons_of_pos (by decide)
  rw [carriesMarker, hfirst]
  decide

/-- Every module carries the marker. -/
theorem carriesMarker_text (s : Suite.Settings) (target : Suite.Target) (pass : Pass)
    (cs : List Component) : carriesMarker (Suite.text s target pass cs) = true := by
  obtain ⟨rest, h⟩ := Suite.text_eq s target pass cs
  exact carriesMarker_of_header h

end Placement

end Trellis
