import Mathlib.Logic.Equiv.Basic
import TemplateLowering.Proofs.Plan.BlockOrder
import TemplateLowering.Proofs.Plan.Lists

/-!
# Plans of the same phases

Two plans of the same phases need not make the same of a template: a view is saved, and a translated
block goes on in it, by an operation at its front, and the phase that comes last has its operation
first.  Whether a message has a context, and whether a handler restores its view, depends on what
the phases before have left to see.  All else is the same in any order.
-/

namespace TemplateLowering

variable {phase : Phase} {phases scheduled : List Phase} {start job job' : Job}

/-! ## Views -/

/-- What the scheduled phases make of a view, apart from its create operations. -/
structure View.Becomes (phases scheduled : List Phase) (root : Xref) (old view : View) : Prop where
  frame : old.SameFrame view
  listeners : List.Forall₂ (Listener.Becomes scheduled) old.listeners view.listeners
  loops : List.Forall₂ (RepeaterCreate.Reaches root old.xref scheduled) old.repeaters view.repeaters
  bases : view.bases = if .specializeBindings ∈ scheduled then
    markedBases (nonBindableTargets old.update) old.bases else old.bases
  update : view.update.toList.filterMap (UpdateOp.lasting? phases) =
    old.update.toList.filterMap (UpdateOp.lasting? phases)

theorem View.Becomes.congr {root : Xref} {old view : View} {scheduled' : List Phase}
    (h : old.Becomes phases scheduled root view)
    (hmem : ∀ phase, phase ∈ scheduled ↔ phase ∈ scheduled') :
    old.Becomes phases scheduled' root view := by
  refine ⟨h.frame, h.listeners.imp fun _ _ hop => ?_, h.loops.imp fun _ _ hop => ?_, ?_, h.update⟩
  · simpa only [Listener.Becomes, hmem] using hop
  · simpa only [RepeaterCreate.Reaches, hmem] using hop
  · simpa only [hmem] using h.bases

/-- The phases among the scheduled ones that put blocks into views, in their order. -/
def blockPhases (scheduled : List Phase) : List Phase :=
  [.propagateI18nBlocks, .wrapI18nIcus].filter (· ∈ scheduled)

/-- The create operations read as if no other phases than those for blocks had run: every number of
a block has one in the job without the others, and numbers of the template stand for themselves. -/
structure Reads (phases : List Phase) (start : Job) (scheduled : List Phase) (job : Job) :
    Prop where
  forest : .propagateI18nBlocks ∉ scheduled → Forest .free job.root.blockMarks job.views
  reading : ∃ (blocked : Job) (pairs : List (Xref × Xref)),
    runAll (blockPhases scheduled) start = .ok blocked ∧
    Reached start (blockPhases scheduled).reverse blocked ∧
    Distinct blocked.ids.nextXref (pairs.map Prod.fst) ∧
    Distinct job.ids.nextXref (pairs.map Prod.snd) ∧
    (∀ xref, xref.index < start.ids.nextXref → (xref, xref) ∈ pairs) ∧
    ∀ f g, (∀ pair ∈ pairs, f pair.1 = g pair.2) →
      List.Forall₂ (View.SameReading phases f g) blocked.units job.units

namespace Plan

variable {component : String} {template : List Template.Node} {options : Options}
  {plan other : Plan}

def kinds (job : Job) : List (List String) :=
  job.views.map fun view => view.create.toList.map CreateOp.kindName

end Plan

end TemplateLowering
