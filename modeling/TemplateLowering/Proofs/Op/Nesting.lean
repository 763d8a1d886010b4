import TemplateLowering.Proofs.Op.Shape

/-!
# Balanced marks

Marks are balanced, which is what a left-to-right check finds out, exactly when they are properly
nested.  In balanced marks every end has its start: the last one before it that is not closed in
between.
-/

namespace TemplateLowering

/-! ## Nesting -/

/-- What is open innermost is closed by the first end behind a nested stretch. -/
theorem exists_stop_of_balanced {bracket : Bracket} {opened : List Bracket} (marks : List Mark)
    (h : balanced (bracket :: opened) marks = true) :
    ∃ inner rest, marks = inner ++ .stop bracket :: rest ∧ Nested inner ∧
      (bracket.kind = .icu → inner = []) ∧ balanced opened rest = true := by
  match marks with
  | [] => simp [balanced] at h
  | .stop other :: marks =>
    simp only [balanced, Bool.and_eq_true, decide_eq_true_eq] at h
    obtain ⟨rfl, hrest⟩ := h
    exact ⟨[], marks, rfl, .nil, fun _ => rfl, hrest⟩
  | .start other :: marks =>
    simp only [balanced, Bool.and_eq_true] at h
    obtain ⟨hadmits, hmarks⟩ := h
    have hkind : bracket.kind ≠ .icu := by simpa [admitsStart] using hadmits
    -- The new start is closed first, and then the search goes on behind its end.
    obtain ⟨inner, rest, heq, hinner, hicu, hrest⟩ := exists_stop_of_balanced marks hmarks
    have hlt : rest.length < marks.length := by
      rw [heq, List.length_append, List.length_cons]
      omega
    obtain ⟨inner', rest', heq', hinner', -, hrest'⟩ := exists_stop_of_balanced rest hrest
    refine ⟨.start other :: (inner ++ .stop other :: inner'), rest', ?_, ?_, ?_, hrest'⟩
    · simp [heq, heq']
    · by_cases hother : other.kind = .icu
      · obtain ⟨kind, xref⟩ := other
        obtain rfl : kind = .icu := hother
        rw [hicu rfl]
        exact hinner'.icu
      · exact hinner.wrap hother hinner'
    · exact fun hicu => absurd hicu hkind
termination_by marks.length
decreasing_by
  · exact Nat.lt_succ_self _
  · exact Nat.lt_succ_of_lt hlt

theorem nested_of_balanced (marks : List Mark) (h : balanced [] marks = true) : Nested marks := by
  match marks with
  | [] => exact .nil
  | .stop other :: marks => simp [balanced] at h
  | .start bracket :: marks =>
    simp only [balanced, Bool.and_eq_true] at h
    obtain ⟨inner, rest, heq, hinner, hicu, hrest⟩ := exists_stop_of_balanced marks h.2
    have hlt : rest.length < marks.length := by
      rw [heq, List.length_append, List.length_cons]
      omega
    have hnested := nested_of_balanced rest hrest
    rw [heq]
    by_cases hkind : bracket.kind = .icu
    · obtain ⟨kind, xref⟩ := bracket
      obtain rfl : kind = .icu := hkind
      rw [hicu rfl]
      exact hnested.icu
    · exact hinner.wrap hkind hnested
termination_by marks.length
decreasing_by
  exact Nat.lt_succ_of_lt hlt

/-! ## The start of an end -/

/-- An end closes a start before it, with nested marks in between, or what was open at the outset.
In the second case the marks before it close all that was opened later. -/
theorem exists_start_of_balanced {bracket : Bracket} {opened : List Bracket}
    {marks rest : List Mark} (h : balanced opened (marks ++ .stop bracket :: rest) = true) :
    (∃ front inner, marks = front ++ .start bracket :: inner ∧ balanced [] inner = true) ∨
      ∃ closed outer, opened = closed ++ bracket :: outer ∧ balanced closed marks = true := by
  induction marks generalizing opened with
  | nil =>
    cases opened with
    | nil => simp [balanced] at h
    | cons innermost opened =>
      simp only [List.nil_append, balanced, Bool.and_eq_true, decide_eq_true_eq] at h
      exact .inr ⟨[], opened, by rw [h.1]; rfl, rfl⟩
  | cons mark marks ih =>
    cases mark with
    | start other =>
      simp only [List.cons_append, balanced, Bool.and_eq_true] at h
      rcases ih h.2 with ⟨front, inner, rfl, hinner⟩ | ⟨closed, outer, hopened, hclosed⟩
      · exact .inl ⟨.start other :: front, inner, rfl, hinner⟩
      · cases closed with
        | nil =>
          obtain ⟨rfl, rfl⟩ := List.cons.inj hopened
          exact .inl ⟨[], marks, rfl, hclosed⟩
        | cons first closed =>
          obtain ⟨rfl, rfl⟩ := List.cons.inj hopened
          refine .inr ⟨closed, outer, rfl, ?_⟩
          have hadmits : admitsStart closed = true := by
            cases closed with
            | nil => rfl
            | cons second closed => exact h.1
          rw [balanced, hadmits, hclosed]
          rfl
    | stop other =>
      cases opened with
      | nil => simp [balanced] at h
      | cons innermost opened =>
        simp only [List.cons_append, balanced, Bool.and_eq_true, decide_eq_true_eq] at h
        obtain ⟨rfl, hrest⟩ := h
        rcases ih hrest with ⟨front, inner, rfl, hinner⟩ | ⟨closed, outer, rfl, hclosed⟩
        · exact .inl ⟨.stop innermost :: front, inner, rfl, hinner⟩
        · refine .inr ⟨innermost :: closed, outer, rfl, ?_⟩
          simpa [balanced] using hclosed

theorem CreateOp.marks_length_le (op : CreateOp) : op.marks.length ≤ 1 := by
  cases op <;> simp [marks]

theorem exists_op_of_marks_eq {ops : List CreateOp} {mark : Mark} {front back : List Mark}
    (h : ops.flatMap CreateOp.marks = front ++ mark :: back) :
    ∃ before op after, ops = before ++ op :: after ∧ op.marks = [mark] ∧
      before.flatMap CreateOp.marks = front ∧ after.flatMap CreateOp.marks = back := by
  induction ops generalizing front with
  | nil => simp at h
  | cons op ops ih =>
    rw [List.flatMap_cons] at h
    have hlength := op.marks_length_le
    rcases hmarks : op.marks with _ | ⟨first, others⟩
    · rw [hmarks, List.nil_append] at h
      obtain ⟨before, found, after, rfl, hfound, hbefore, hafter⟩ := ih h
      exact ⟨op :: before, found, after, rfl, hfound, by simp [hmarks, hbefore], hafter⟩
    · obtain rfl : others = [] := by
        rw [hmarks] at hlength
        simpa using hlength
      rw [hmarks, List.singleton_append] at h
      cases front with
      | nil =>
        obtain ⟨rfl, rfl⟩ := List.cons.inj h
        exact ⟨[], op, ops, rfl, hmarks, rfl, rfl⟩
      | cons second front =>
        obtain ⟨rfl, hrest⟩ := List.cons.inj h
        obtain ⟨before, found, after, rfl, hfound, hbefore, hafter⟩ := ih hrest
        exact ⟨op :: before, found, after, rfl, hfound, by simp [hmarks, hbefore], hafter⟩

theorem exists_startOp_of_balanced {ops before after : List CreateOp} {stop : CreateOp}
    {bracket : Bracket} (h : balanced [] (ops.flatMap CreateOp.marks) = true)
    (hops : ops = before ++ stop :: after) (hstop : stop.marks = [.stop bracket]) :
    ∃ front start inner, before = front ++ start :: inner ∧ start.marks = [.start bracket] ∧
      Nested (inner.flatMap CreateOp.marks) := by
  rw [hops, List.flatMap_append, List.flatMap_cons, hstop, List.singleton_append] at h
  rcases exists_start_of_balanced h with ⟨front, inner, hmarks, hinner⟩ | ⟨closed, outer, hnil, -⟩
  · obtain ⟨front', start, inner', rfl, hstart, -, rfl⟩ := exists_op_of_marks_eq hmarks
    exact ⟨front', start, inner', rfl, hstart, nested_of_balanced _ hinner⟩
  · simp at hnil

end TemplateLowering
