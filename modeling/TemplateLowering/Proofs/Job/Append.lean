import TemplateLowering.Proofs.Job.Intact
import TemplateLowering.Proofs.Lowering.NodeRenaming

/-!
# Templates one after the other

The job of a template that consists of two parts is made of the jobs of the parts: the operations of
the second part follow those of the first, with their numbers moved behind the numbers that the
first part takes.  An error of a part is the error of the whole, and the first part's comes first.
-/

namespace TemplateLowering

theorem lowerNodes_append (facts : JobFacts) (view : Xref) (nodes nodes' : List Template.Node) :
    lowerNodes facts view (nodes ++ nodes') = do
      let first ← lowerNodes facts view nodes
      let others ← lowerNodes facts view nodes'
      return first ++ others := by
  induction nodes with
  | nil =>
    rw [lowerNodes, List.nil_append, pure_bind]
    exact (bind_pure _).symm
  | cons node nodes ih =>
    rw [List.cons_append, lowerNodes, lowerNodes, ih]
    simp only [bind_assoc, pure_bind, Fragment.append_assoc]

namespace Job

/-- How the numbers of nodes change that come behind the template of this job. -/
def behind (job : Job) : Renaming :=
  { xrefs := job.ids.nextXref - 1, lists := job.ids.nextList - 2 }

/-- The job is made of the jobs of two parts. -/
structure Joins (first second job : Job) : Prop where
  create : job.root.create.toList =
    first.root.create.toList ++ second.root.create.toList.map (CreateOp.rename first.behind)
  update : job.root.update.toList =
    first.root.update.toList ++ second.root.update.toList.map (UpdateOp.rename first.behind)
  views : job.views.map View.unnamed =
    (first.views ++ second.views.map (View.rename first.behind)).map View.unnamed

section Parts

variable {component : String} {options : Options} {nodes : List Template.Node}
  {first second others : Fragment} {ids ids' ids'' : Ids}

theorem joins_ofFragment
    (h : second.Renamed (ofFragment component options first ids).behind others) :
    Joins (ofFragment component options first ids) (ofFragment component options second ids')
      (ofFragment component options (first ++ others) ids'') := by
  constructor
  · rw [rootOf_ofFragment.create.toList, rootOf_ofFragment.create.toList,
      rootOf_ofFragment.create.toList, Fragment.create_append, h.create]
  · rw [rootOf_ofFragment.update.toList, rootOf_ofFragment.update.toList,
      rootOf_ofFragment.update.toList, Fragment.update_append, h.update]
  · rw [views_ofFragment, views_ofFragment, views_ofFragment, Fragment.views_append,
      List.map_append, List.map_append, h.views, List.map_map]
    rfl

variable (component options nodes) in
theorem sameOutcome_lowerRoot {r : Renaming} {s s' : Ids} (h : r.Moves s s') :
    r.SameOutcome (Fragment.Renamed r) s (outcome (lowerRoot component options nodes) s)
      (outcome (lowerRoot component options nodes) s') :=
  renamesNodes rfl nodes ⟨0⟩ s s' h

theorem moves_behind (h : Yields (lowerRoot component options nodes) freeIds first ids) :
    (ofFragment component options first ids).behind.Moves freeIds ids := by
  -- Renaming by nothing relates the run to itself, which shows that no number is given back.
  have hstay : Renaming.Moves ⟨0, 0⟩ freeIds freeIds := ⟨Nat.zero_lt_one, rfl, rfl⟩
  have hsame := sameOutcome_lowerRoot component options nodes hstay
  rw [h] at hsame
  cases hsame with
  | ok _ _ hxref hlist =>
    exact ⟨Nat.zero_lt_one, (Nat.add_sub_of_le hxref).symm, (Nat.add_sub_of_le hlist).symm⟩

end Parts

/-- The job of a template is made of the jobs of its parts, and the first error of a part is its
error. -/
theorem ofTemplate_append (component : String) (options : Options)
    (nodes nodes' : List Template.Node) :
    match ofTemplate component nodes options, ofTemplate component nodes' options with
    | .error e, _ => ofTemplate component (nodes ++ nodes') options = .error e
    | .ok _, .error e => ofTemplate component (nodes ++ nodes') options = .error e
    | .ok first, .ok second =>
      ∃ job, ofTemplate component (nodes ++ nodes') options = .ok job ∧ Joins first second job := by
  simp only [ofTemplate_eq, lowerNodes_append, Stateful.outcome_bind, Stateful.outcome_pure]
  cases hfirst : outcome (lowerRoot component options nodes) freeIds with
  | error e => rfl
  | ok result =>
    obtain ⟨fragment, ids⟩ := result
    simp only [Except.map, bind, Except.bind]
    have hsame := sameOutcome_lowerRoot component options nodes' (moves_behind hfirst)
    generalize outcome (lowerRoot component options nodes') freeIds = second,
      outcome (lowerRoot component options nodes') ids = others at hsame ⊢
    cases hsame with
    | error => rfl
    | ok hrenamed => exact ⟨_, rfl, joins_ofFragment hrenamed⟩

end Job

end TemplateLowering
