import Mathlib.Data.List.SplitBy
import TemplateLowering.Proofs.Job.Reading
import TemplateLowering.Proofs.Lowering.Layout
import TemplateLowering.Proofs.Plan.Edits
import TemplateLowering.Proofs.Plan.Invariants

/-!
# Control flow in both lists of a view

What one list of a view creates, the other updates, in the same order: the branches of conditional
operations, loops, declarations and interpolated texts.  Lowering adds to both lists at once, and
the phases only ever touch operations that have no part in this.
-/

namespace TemplateLowering

/-- A branch of a block as the create operations show it. -/
structure Branch where
  /-- Whether the branch is the first of its block. -/
  opens : Bool
  xref : Xref
deriving DecidableEq

namespace CreateOp

def branch? : CreateOp → Option Branch
  | .conditionalCreate op => some ⟨true, op.xref⟩
  | .conditionalBranchCreate op => some ⟨false, op.xref⟩
  | _ => none

def loop? : CreateOp → Option Xref
  | .repeaterCreate op => some op.xref
  | _ => none

def let? : CreateOp → Option (Xref × String)
  | .declareLet op => some (op.xref, op.name)
  | _ => none

/-- The operation has no part in control flow. -/
structure Silent (op : CreateOp) : Prop where
  branch : op.branch? = none
  loop : op.loop? = none
  declaration : op.let? = none
  text : op.text? = none

end CreateOp

namespace UpdateOp

def conditional? : UpdateOp → Option ConditionalOp
  | .conditional op => some op
  | _ => none

def loop? : UpdateOp → Option Xref
  | .repeater op => some op.target
  | _ => none

def let? : UpdateOp → Option (Xref × String)
  | .storeLet op => some (op.target, op.name)
  | _ => none

structure Silent (op : UpdateOp) : Prop where
  conditional : op.conditional? = none
  loop : op.loop? = none
  declaration : op.let? = none
  text : op.interpolated? = none

end UpdateOp

def branchesTo : Bool → List Xref → List Branch
  | _, [] => []
  | isFirst, target :: targets => ⟨isFirst, target⟩ :: branchesTo false targets

def ConditionalOp.branches (op : ConditionalOp) : List Branch :=
  branchesTo true (op.cases.map ConditionalCase.target)

/-- The two lists of a view agree on control flow. -/
structure Agree (create : List CreateOp) (update : List UpdateOp) : Prop where
  branches : create.filterMap CreateOp.branch? =
    (update.filterMap UpdateOp.conditional?).flatMap ConditionalOp.branches
  target : ∀ op ∈ update.filterMap UpdateOp.conditional?,
    (op.cases.map ConditionalCase.target).head? = some op.target
  loops : create.filterMap CreateOp.loop? = update.filterMap UpdateOp.loop?
  lets : create.filterMap CreateOp.let? = update.filterMap UpdateOp.let?
  texts : (update.filterMap UpdateOp.interpolated?).Sublist (create.filterMap CreateOp.text?)

/-! ## Lowered operations -/

section Layout

variable {root target : Xref} {create create' : List CreateOp} {update update' : List UpdateOp}

theorem Agree.append (h : Agree create update) (h' : Agree create' update') :
    Agree (create ++ create') (update ++ update') := by
  constructor <;> simp only [List.filterMap_append]
  · rw [List.flatMap_append, h.branches, h'.branches]
  · intro op hop
    exact (List.mem_append.1 hop).elim (h.target op) (h'.target op)
  · rw [h.loops, h'.loops]
  · rw [h.lets, h'.lets]
  · exact h.texts.append h'.texts

theorem agree_of_silent (hcreate : ∀ op ∈ create, op.Silent) (hupdate : ∀ op ∈ update, op.Silent) :
    Agree create update := by
  have hconditional : update.filterMap UpdateOp.conditional? = [] :=
    List.filterMap_eq_nil_iff.2 fun op hop => (hupdate op hop).conditional
  constructor
  · rw [hconditional, List.filterMap_eq_nil_iff.2 fun op hop => (hcreate op hop).branch]
    rfl
  · simp [hconditional]
  · rw [List.filterMap_eq_nil_iff.2 fun op hop => (hcreate op hop).loop,
      List.filterMap_eq_nil_iff.2 fun op hop => (hupdate op hop).loop]
  · rw [List.filterMap_eq_nil_iff.2 fun op hop => (hcreate op hop).declaration,
      List.filterMap_eq_nil_iff.2 fun op hop => (hupdate op hop).declaration]
  · rw [List.filterMap_eq_nil_iff.2 fun op hop => (hupdate op hop).text]
    exact List.nil_sublist _

theorem agree_op {op : CreateOp} (h : op.Silent) : Agree [op] [] :=
  agree_of_silent (by simpa using h) (by simp)

theorem Binds.silent (h : Binds root target create update) :
    (∀ op ∈ create, op.Silent) ∧ ∀ op ∈ update, op.Silent := by
  constructor
  · intro op hop
    cases h.create op hop <;> exact ⟨rfl, rfl, rfl, rfl⟩
  · intro op hop
    obtain ⟨binding, rfl, -⟩ := h.update op hop
    exact ⟨rfl, rfl, rfl, rfl⟩

theorem Binds.agree (h : Binds root target create update) : Agree create update :=
  agree_of_silent h.silent.1 h.silent.2

theorem BindsEmpty.agree {emptyView : Option Xref} (h : BindsEmpty root emptyView create update) :
    Agree create update := by
  cases emptyView with
  | none =>
    obtain ⟨rfl, rfl⟩ := h
    exact agree_of_silent (by simp) (by simp)
  | some target => exact Binds.agree h

/-- The branches of a block, before the conditional operation is added. -/
structure BranchesSeen (branches : List Branch) (create : List CreateOp)
    (update : List UpdateOp) : Prop where
  declared : create.filterMap CreateOp.branch? = branches
  others : ∀ op ∈ create, op.loop? = none ∧ op.let? = none ∧ op.text? = none
  update : ∀ op ∈ update, op.Silent

theorem BranchLayout.seen {isFirst : Bool} {targets : List Xref}
    (h : BranchLayout root isFirst targets create update) :
    BranchesSeen (branchesTo isFirst targets) create update := by
  induction h with
  | nil => exact ⟨rfl, by simp, by simp⟩
  | @cons isFirst targets op copies create bindings update hcopies _ ih =>
    obtain ⟨hcopies, hbindings⟩ := hcopies.silent
    have hbranch : (branchOp isFirst op).branch? = some ⟨isFirst, op.xref⟩ := by
      cases isFirst <;> rfl
    refine ⟨?_, ?_, ?_⟩
    · rw [List.filterMap_append, List.filterMap_eq_nil_iff.2 fun op hop => (hcopies op hop).branch,
        List.nil_append, List.filterMap_cons_some hbranch, ih.declared]
      rfl
    · intro other hother
      rcases List.mem_append.1 hother with hother | hother
      · have hsilent := hcopies other hother
        exact ⟨hsilent.loop, hsilent.declaration, hsilent.text⟩
      rcases List.mem_cons.1 hother with rfl | hother
      · cases isFirst <;> exact ⟨rfl, rfl, rfl⟩
      · exact ih.others other hother
    · intro other hother
      exact (List.mem_append.1 hother).elim (hbindings other) (ih.update other)

theorem BranchesSeen.agree {op : ConditionalOp} (h : BranchesSeen op.branches create update)
    (htarget : (op.cases.map ConditionalCase.target).head? = some op.target) :
    Agree create (update ++ [.conditional op]) := by
  have hconditional :
      (update ++ [UpdateOp.conditional op]).filterMap UpdateOp.conditional? = [op] := by
    rw [List.filterMap_append,
      List.filterMap_eq_nil_iff.2 fun other hother => (h.update other hother).conditional]
    rfl
  constructor
  · rw [hconditional, h.declared, List.flatMap_singleton]
  · rw [hconditional]
    simpa using htarget
  · rw [List.filterMap_append,
      List.filterMap_eq_nil_iff.2 fun other hother => (h.others other hother).1,
      List.filterMap_eq_nil_iff.2 fun other hother => (h.update other hother).loop]
    rfl
  · rw [List.filterMap_append,
      List.filterMap_eq_nil_iff.2 fun other hother => (h.others other hother).2.1,
      List.filterMap_eq_nil_iff.2 fun other hother => (h.update other hother).declaration]
    rfl
  · rw [List.filterMap_append,
      List.filterMap_eq_nil_iff.2 fun other hother => (h.update other hother).text]
    exact List.nil_sublist _

theorem Layout.agree (h : Layout root create update) : Agree create update := by
  induction h with
  | nil => exact agree_of_silent (by simp) (by simp)
  | append _ _ ih ih' => exact ih.append ih'
  | text op => exact ⟨rfl, by simp, rfl, rfl, List.nil_sublist _⟩
  | @boundText op new htarget =>
    refine ⟨rfl, by simp [UpdateOp.conditional?], rfl, rfl, ?_⟩
    simp [UpdateOp.interpolated?, CreateOp.text?, htarget]
  | @declaration op store htarget hname =>
    refine ⟨rfl, by simp [UpdateOp.conditional?], rfl, ?_, List.nil_sublist _⟩
    simp [UpdateOp.let?, CreateOp.let?, htarget, hname]
  | icu start _ ih =>
    have hopening : Agree [.icuStart start] [] := agree_op ⟨rfl, rfl, rfl, rfl⟩
    have hclosing : Agree [.icuEnd start.xref] [] := agree_op ⟨rfl, rfl, rfl, rfl⟩
    simpa using (hopening.append ih).append hclosing
  | @message _ _ start stop _ _ ih =>
    have hopening : Agree [.i18nStart start] [] := agree_op ⟨rfl, rfl, rfl, rfl⟩
    have hclosing : Agree [.i18nEnd stop] [] := agree_op ⟨rfl, rfl, rfl, rfl⟩
    simpa using (hopening.append ih).append hclosing
  | @element _ _ _ _ start stop _ hbindings _ ih =>
    have hopening : Agree [.elementStart start] [] := agree_op ⟨rfl, rfl, rfl, rfl⟩
    have hclosing : Agree [.elementEnd stop] [] := agree_op ⟨rfl, rfl, rfl, rfl⟩
    simpa using ((hopening.append hbindings.agree).append ih).append hclosing
  | template hbindings => exact (agree_op ⟨rfl, rfl, rfl, rfl⟩).append hbindings.agree
  | projection hbindings => exact (agree_op ⟨rfl, rfl, rfl, rfl⟩).append hbindings.agree
  | conditional hbranches htarget => exact hbranches.seen.agree htarget
  | @loop op new _ _ _ _ htarget hempty hcopies =>
    have hloop : Agree [.repeaterCreate op] [.repeater new] := by
      refine ⟨rfl, by simp [UpdateOp.conditional?], ?_, rfl, List.nil_sublist _⟩
      simp [UpdateOp.loop?, CreateOp.loop?, htarget]
    exact (hempty.agree.append hcopies.agree).append hloop
  | @deferred declarations op on when_ _ _ _ =>
    apply agree_of_silent
    · intro other hother
      simp only [List.mem_append, List.mem_cons, List.mem_map] at hother
      rcases hother with ⟨_, -, rfl⟩ | rfl | ⟨_, -, rfl⟩ <;> exact ⟨rfl, rfl, rfl, rfl⟩
    · intro other hother
      obtain ⟨_, -, rfl⟩ := List.mem_map.1 hother
      exact ⟨rfl, rfl, rfl, rfl⟩

end Layout

/-! ## Phases -/

section Phase

variable {phase : Phase}

theorem Phase.Inserts.silent {op : CreateOp} (h : phase.Inserts op) : op.Silent := by
  cases h.inserted <;> exact ⟨rfl, rfl, rfl, rfl⟩

theorem Phase.Alters.control_eq {op op' : CreateOp} (h : phase.Alters op op') :
    op'.branch? = op.branch? ∧ op'.loop? = op.loop? ∧ op'.let? = op.let? ∧
      op'.text? = op.text? := by
  cases h with
  | mark => cases op <;> exact ⟨rfl, rfl, rfl, rfl⟩
  | _ => exact ⟨rfl, rfl, rfl, rfl⟩

theorem UpdateOp.silent_of_sets? {op : UpdateOp} {target : Xref} (h : op.sets? = some target) :
    op.Silent := by
  cases op <;> first | exact ⟨rfl, rfl, rfl, rfl⟩ | simp [sets?] at h

theorem View.EditedBy.agree {view view' : View} (h : view.EditedBy phase view')
    (hagree : Agree view.create.toList view.update.toList) :
    Agree view'.create.toList view'.update.toList := by
  have hbranches := h.create.filterMap_eq (fun _ _ halters => halters.control_eq.1)
    fun _ hinserts => hinserts.silent.branch
  have hloops := h.create.filterMap_eq (fun _ _ halters => halters.control_eq.2.1)
    fun _ hinserts => hinserts.silent.loop
  have hlets := h.create.filterMap_eq (fun _ _ halters => halters.control_eq.2.2.1)
    fun _ hinserts => hinserts.silent.declaration
  have htexts := h.create.filterMap_eq (fun _ _ halters => halters.control_eq.2.2.2)
    fun _ hinserts => hinserts.silent.text
  have hconditionals := h.update.filterMap_eq fun _ _ hsets =>
    (UpdateOp.silent_of_sets? hsets).conditional
  have hloops' := h.update.filterMap_eq fun _ _ hsets => (UpdateOp.silent_of_sets? hsets).loop
  have hlets' := h.update.filterMap_eq fun _ _ hsets =>
    (UpdateOp.silent_of_sets? hsets).declaration
  have htexts' := h.update.filterMap_eq fun _ _ hsets => (UpdateOp.silent_of_sets? hsets).text
  obtain ⟨hbranch, htarget, hloop, hlet, htext⟩ := hagree
  constructor
  · rw [hbranches, hconditionals, hbranch]
  · rwa [hconditionals]
  · rw [hloops, hloops', hloop]
  · rw [hlets, hlets', hlet]
  · rwa [htexts, htexts']

end Phase

/-! ## Groups of branches -/

theorem isChain_branchesTo (isFirst : Bool) (targets : List Xref) :
    (branchesTo isFirst targets).IsChain fun _ next => !next.opens := by
  induction targets generalizing isFirst with
  | nil => exact .nil
  | cons target targets ih =>
    rw [branchesTo, List.isChain_cons]
    refine ⟨?_, ih false⟩
    cases targets <;> simp [branchesTo]

theorem map_xref_branchesTo (isFirst : Bool) (targets : List Xref) :
    (branchesTo isFirst targets).map Branch.xref = targets := by
  induction targets generalizing isFirst with
  | nil => rfl
  | cons target targets ih => rw [branchesTo, List.map_cons, ih]

theorem ConditionalOp.head?_branches {op : ConditionalOp}
    (h : (op.cases.map ConditionalCase.target).head? = some op.target) :
    op.branches.head? = some ⟨true, op.target⟩ := by
  unfold branches
  cases htargets : op.cases.map ConditionalCase.target with
  | nil => simp [htargets] at h
  | cons target targets =>
    obtain rfl : target = op.target := by simpa [htargets] using h
    rfl

/-- Splitting the branches before each one that opens a block gives the blocks back. -/
theorem splitBy_branches {ops : List ConditionalOp}
    (h : ∀ op ∈ ops, op.branches.head? = some ⟨true, op.target⟩) :
    (ops.flatMap ConditionalOp.branches).splitBy (fun _ next => !next.opens) =
      ops.map ConditionalOp.branches := by
  have hopens : ∀ op ∈ ops, ∃ hne : op.branches ≠ [], (op.branches.head hne).opens = true := by
    intro op hop
    have hne : op.branches ≠ [] := by
      intro hnil
      simpa [hnil] using h op hop
    refine ⟨hne, ?_⟩
    rw [List.head_of_head?_eq_some (h op hop)]
  rw [List.flatMap_def]
  apply List.splitBy_flatten
  · intro hnil
    obtain ⟨op, hop, hbranches⟩ := List.mem_map.1 hnil
    exact (hopens op hop).1 hbranches
  · intro group hgroup
    obtain ⟨op, -, rfl⟩ := List.mem_map.1 hgroup
    exact isChain_branchesTo true _
  · apply List.Pairwise.isChain
    rw [List.pairwise_map]
    apply List.pairwise_of_forall_mem_list
    intro op hop next hnext
    obtain ⟨hne, -⟩ := hopens op hop
    obtain ⟨hne', hopens'⟩ := hopens next hnext
    exact ⟨hne, hne', by rw [hopens']; rfl⟩

namespace Plan

variable {component : String} {template : List Template.Node} {options : Options}
variable {plan : Plan} {job job' : Job}

theorem agree_of_run (h : Job.ofTemplate component template options = .ok job)
    (hrun : plan.run job = .ok job') :
    ∀ view ∈ job'.units, Agree view.create.toList view.update.toList := by
  obtain ⟨root, hlaidOut⟩ := Job.exists_laidOut h
  apply induction_run h hrun (P := fun _ job =>
    ∀ view ∈ job.units, Agree view.create.toList view.update.toList)
  · intro view hview
    exact (hlaidOut view hview).agree
  · intro scheduled phase job₁ job₂ hreached henabled _ hok ih view' hview'
    obtain ⟨view, hview, hedited⟩ :=
      exists_left_of_mem (hreached.editedBy henabled hok) hview'
    exact hedited.agree (ih view hview)

/-- The conditional operations choose, in their order, from the groups of branches that the create
operations declare, each starting with the branch that opens it; loops and declarations are created
and updated in the same order; and the interpolated texts are some of the texts, in order and each
once. -/
theorem control_flow_agrees_of_run (h : Job.ofTemplate component template options = .ok job)
    (hrun : plan.run job = .ok job') :
    ∀ view ∈ job'.units,
      List.Forall₂
        (fun (group : List Branch) (op : ConditionalOp) =>
          group.map Branch.xref = op.cases.map ConditionalCase.target ∧
            group.head? = some ⟨true, op.target⟩)
        ((view.create.toList.filterMap CreateOp.branch?).splitBy fun _ next => !next.opens)
        (view.update.toList.filterMap UpdateOp.conditional?) ∧
      view.create.toList.filterMap CreateOp.loop? = view.update.toList.filterMap UpdateOp.loop? ∧
      view.create.toList.filterMap CreateOp.let? = view.update.toList.filterMap UpdateOp.let? ∧
      (view.update.toList.filterMap UpdateOp.interpolated?).Sublist
        (view.create.toList.filterMap CreateOp.text?) ∧
      (view.update.toList.filterMap UpdateOp.interpolated?).Nodup := by
  intro view hview
  have hagree := agree_of_run h hrun view hview
  have hheads : ∀ op ∈ view.update.toList.filterMap UpdateOp.conditional?,
      op.branches.head? = some ⟨true, op.target⟩ :=
    fun op hop => ConditionalOp.head?_branches (hagree.target op hop)
  refine ⟨?_, hagree.loops, hagree.lets, hagree.texts, ?_⟩
  · rw [hagree.branches, splitBy_branches hheads, List.forall₂_map_left_iff, List.forall₂_same]
    intro op hop
    exact ⟨map_xref_branchesTo true _, hheads op hop⟩
  · have hnodup := (distinct_iff.1 (reached_of_run h hrun).intact.distinct).1
    have hxrefs := (List.nodup_flatMap.1 hnodup).1 view hview
    have hsublist : ((view.create.toList.filterMap CreateOp.text?).map id).Sublist view.xrefs := by
      apply view.sublist_xrefs
      intro op xref htext
      cases op <;> simp [CreateOp.text?] at htext
      exact congrArg (fun xref => [xref]) htext
    rw [List.map_id] at hsublist
    exact hagree.texts.nodup (hxrefs.sublist hsublist)

/-- Two blocks of two branches, a loop, a declaration and a text between two others. -/
def menu : List Template.Node :=
  let here : SourceSpan := default
  let block : Template.BlockSpans := { whole := here, start := here, stop := none }
  let read (name : String) : Ast := .propertyRead {} {} (.implicitReceiver {}) name
  let text (value : String) : Template.Node := .text { value, span := here }
  [.letDeclaration { name := "open", value := read "isOpen", span := here, valueSpan := here },
    .ifBlock
      [⟨some (read "open"), [text "yes"], none, block, none⟩, ⟨none, [text "no"], none, block, none⟩]
      block,
    text "before",
    .boundText
      { value := { ast := .interpolation {} ["", ""] [read "title"] }, span := here, i18n := none },
    text "after",
    .switchBlock (read "kind")
      [⟨some (read "first"), [], block, none⟩, ⟨none, [], block, none⟩] block,
    .forBlock
      { item := { name := "item", value := "$implicit", span := here }
        expression := { ast := read "items" }
        trackBy := { ast := read "item" }
        contextVariables := []
        children := []
        empty := none
        block
        mainSpan := here
        i18n := none }]

theorem control_flow_agrees_of_run_menu :
    ∃ job job', Job.ofTemplate "Menu" menu {} = .ok job ∧ standard.run job = .ok job' ∧
      ((job'.root.create.toList.filterMap CreateOp.branch?).splitBy fun _ next => !next.opens) =
        [[⟨true, ⟨2⟩⟩, ⟨false, ⟨4⟩⟩], [⟨true, ⟨9⟩⟩, ⟨false, ⟨10⟩⟩]] ∧
      (job'.root.update.toList.filterMap UpdateOp.conditional?).map
        (fun op => op.cases.map ConditionalCase.target) = [[⟨2⟩, ⟨4⟩], [⟨9⟩, ⟨10⟩]] ∧
      job'.root.update.toList.filterMap UpdateOp.let? = [(⟨1⟩, "open")] ∧
      job'.root.update.toList.filterMap UpdateOp.loop? = [⟨11⟩] ∧
      (job'.root.update.toList.filterMap UpdateOp.interpolated?).Sublist [⟨6⟩, ⟨7⟩, ⟨8⟩] := by
  have heval : ((Job.ofTemplate "Menu" menu {}).toOption.bind fun job =>
      (standard.run job).toOption.map fun job' =>
        (job'.root.create.toList.filterMap CreateOp.branch?,
          job'.root.create.toList.filterMap CreateOp.let?,
          job'.root.create.toList.filterMap CreateOp.loop?,
          job'.root.create.toList.filterMap CreateOp.text?)) =
      some ([⟨true, ⟨2⟩⟩, ⟨false, ⟨4⟩⟩, ⟨true, ⟨9⟩⟩, ⟨false, ⟨10⟩⟩], [(⟨1⟩, "open")], [⟨11⟩],
        [⟨6⟩, ⟨7⟩, ⟨8⟩]) := by decide +kernel
  obtain ⟨job, job', hjob, hrun, heval⟩ := exists_ok_of_eval heval
  simp only [Prod.mk.injEq] at heval
  obtain ⟨hbranches, hlets, hloops, htexts⟩ := heval
  obtain ⟨hgroups, hloops', hlets', htexts', -⟩ :=
    control_flow_agrees_of_run hjob hrun job'.root List.mem_cons_self
  have hsplit : ((job'.root.create.toList.filterMap CreateOp.branch?).splitBy
      fun _ next => !next.opens) =
      [[⟨true, ⟨2⟩⟩, ⟨false, ⟨4⟩⟩], [⟨true, ⟨9⟩⟩, ⟨false, ⟨10⟩⟩]] := by
    rw [hbranches]
    decide
  refine ⟨job, job', hjob, hrun, hsplit, ?_, hlets' ▸ hlets, hloops' ▸ hloops, htexts ▸ htexts'⟩
  rw [hsplit] at hgroups
  have htargets : List.Forall₂ (fun (group : List Branch) (op : ConditionalOp) =>
      group.map Branch.xref = op.cases.map ConditionalCase.target) _ _ :=
    hgroups.imp fun _ _ hgroup => hgroup.1
  rw [← List.forall₂_map_right_iff, ← List.forall₂_map_left_iff, List.forall₂_eq_eq_eq] at htargets
  exact htargets.symm

end Plan

end TemplateLowering
