import TemplateLowering.Op.Update
import TemplateLowering.Proofs.OpList.Splice

/-!
# Rejected commands

A command checks all its arguments before it changes a link, and linking nodes at a cut of a chain
never fails.  So a rejected command leaves the list as it was, apart from operations that it had
created before.  The main theorem says this of every list that commands can produce, and adds that
an operation which was moved out of its node leaves a node that no later command links again.
-/

namespace TemplateLowering.OpList

/-- A list end is told apart from the operations. -/
class LawfulListOp (α : Type) [ListOp α] : Prop where
  isListEnd_listEnd : ListOp.isListEnd (ListOp.listEnd : α) = true

instance : LawfulListOp CreateOp := ⟨rfl⟩

instance : LawfulListOp UpdateOp := ⟨rfl⟩

variable {α β γ : Type} {l l₁ l' : OpList α}

/-! ## Failing computations -/

/-- The answer of an edit and the list that it leaves, accepted or not. -/
def Edit.result (x : Edit α β) (l : OpList α) : Except Fault β × OpList α :=
  (x.run.run l).run

/-- The edit fails on `l` and leaves the list `l'`. -/
def Rejects (x : Edit α β) (l l' : OpList α) : Prop :=
  ∃ fault, x.result l = (.error fault, l')

theorem yields_iff_result {x : Edit α β} {b : β} : Yields x l b l' ↔ x.result l = (.ok b, l') := by
  rw [Yields, outcome_exceptT, ← Edit.result]
  rcases x.result l with ⟨fault | b', l₁⟩ <;> simp

theorem Edit.result_bind (x : Edit α β) (f : β → Edit α γ) (l : OpList α) :
    (x >>= f).result l = match x.result l with
      | (.ok b, l₁) => (f b).result l₁
      | (.error fault, l₁) => (.error fault, l₁) := by
  simp only [Edit.result, ExceptT.run_bind, StateT.run_bind]
  rcases x.run.run l with ⟨fault | b, l₁⟩ <;> rfl

theorem not_rejects_of_yields {x : Edit α β} {b : β} (h : Yields x l b l₁) : ¬Rejects x l l' := by
  rintro ⟨fault, hfault⟩
  rw [yields_iff_result.1 h] at hfault
  simp at hfault

theorem yields_or_rejects (x : Edit α β) (l : OpList α) :
    (∃ b, Yields x l b (x.result l).2) ∨ Rejects x l (x.result l).2 := by
  rcases hresult : x.result l with ⟨fault | b, l₁⟩
  · exact .inr ⟨fault, hresult⟩
  · exact .inl ⟨b, yields_iff_result.2 hresult⟩

theorem not_rejects_pure {b : β} : ¬Rejects (pure b : Edit α β) l l' :=
  not_rejects_of_yields (yields_pure.2 ⟨rfl, rfl⟩)

theorem rejects_bind {x : Edit α β} {f : β → Edit α γ} :
    Rejects (x >>= f) l l' ↔ Rejects x l l' ∨ ∃ b l₁, Yields x l b l₁ ∧ Rejects (f b) l₁ l' := by
  simp only [Rejects, yields_iff_result, Edit.result_bind]
  rcases x.result l with ⟨fault | b, l₁⟩ <;> simp

theorem rejects_map {x : Edit α β} {f : β → γ} : Rejects (f <$> x) l l' ↔ Rejects x l l' := by
  rw [← bind_pure_comp, rejects_bind]
  simp [not_rejects_pure]

/-! ## Checks -/

def Inspects (x : Edit α β) : Prop :=
  ∀ l, (x.result l).2 = l

theorem Inspects.eq_of_rejects {x : Edit α β} (h : Inspects x) (hrejects : Rejects x l l') :
    l' = l := by
  obtain ⟨fault, hfault⟩ := hrejects
  have hl := h l
  rw [hfault] at hl
  exact hl

theorem Inspects.eq_of_yields {x : Edit α β} {b : β} (h : Inspects x) (hyields : Yields x l b l') :
    l' = l := by
  have hl := h l
  rw [yields_iff_result.1 hyields] at hl
  exact hl

theorem inspects_pure (b : β) : Inspects (pure b : Edit α β) := fun _ => rfl

theorem inspects_throw (fault : Fault) : Inspects (throw fault : Edit α β) := fun _ => rfl

theorem inspects_get : Inspects (get : Edit α (OpList α)) := fun _ => rfl

theorem Inspects.bind {x : Edit α β} {f : β → Edit α γ} (hx : Inspects x)
    (hf : ∀ b, Inspects (f b)) : Inspects (x >>= f) := by
  intro l
  rcases yields_or_rejects (x >>= f) l with ⟨c, hyields⟩ | hrejects
  · obtain ⟨b, l₁, hb, hc⟩ := yields_bind.1 hyields
    exact ((hf b).eq_of_yields hc).trans (hx.eq_of_yields hb)
  · rcases rejects_bind.1 hrejects with hrejects | ⟨b, l₁, hb, hrejects⟩
    · exact hx.eq_of_rejects hrejects
    · exact ((hf b).eq_of_rejects hrejects).trans (hx.eq_of_yields hb)

theorem Inspects.ite {c : Prop} [Decidable c] {x y : Edit α β} (hx : Inspects x)
    (hy : Inspects y) : Inspects (if c then x else y) := by
  split_ifs
  · exact hx
  · exact hy

theorem inspects_foldlM {f : β → γ → Edit α β} (hf : ∀ b c, Inspects (f b c)) (cs : List γ)
    (b : β) : Inspects (cs.foldlM f b) := by
  induction cs generalizing b with
  | nil => exact inspects_pure b
  | cons c cs ih =>
    rw [List.foldlM_cons]
    exact (hf b c).bind ih

theorem inspects_indexOf (id : OpId) : Inspects (indexOf id : Edit α Nat) :=
  inspects_get.bind fun _ =>
    .ite (inspects_throw _) (.ite (inspects_throw _) (inspects_pure _))

theorem inspects_checkUnowned (i : Nat) : Inspects (checkUnowned i : Edit α Unit) :=
  inspects_get.bind fun l => by
    cases l.owner? i with
    | none => exact inspects_pure _
    | some owner => exact inspects_throw _

theorem inspects_checkOwned (i : Nat) : Inspects (checkOwned i : Edit α Unit) :=
  inspects_get.bind fun l => by
    cases l.owner? i with
    | none => exact inspects_throw _
    | some owner => exact .ite (inspects_throw _) (inspects_pure _)

/-! ## Rejected operations -/

def Atomic (x : Edit α β) (l : OpList α) : Prop :=
  ∀ l', Rejects x l l' → l' = l

theorem Inspects.atomic {x : Edit α β} (h : Inspects x) : Atomic x l :=
  fun _ => h.eq_of_rejects

theorem atomic_of_yields {x : Edit α β} {b : β} (h : Yields x l b l₁) : Atomic x l :=
  fun _ hrejects => absurd hrejects (not_rejects_of_yields h)

theorem Inspects.atomic_bind {x : Edit α β} {f : β → Edit α γ} (hx : Inspects x)
    (hf : ∀ b, Yields x l b l → Atomic (f b) l) : Atomic (x >>= f) l := by
  intro l' hrejects
  rcases rejects_bind.1 hrejects with hfirst | ⟨b, l₁, hb, hrest⟩
  · exact hx.eq_of_rejects hfirst
  · have heq := hx.eq_of_yields hb
    subst heq
    exact hf b hb l' hrest

theorem Atomic.ite {c : Prop} [Decidable c] {x y : Edit α β} (hx : c → Atomic x l)
    (hy : ¬c → Atomic y l) : Atomic (if c then x else y) l := by
  split_ifs with hc
  · exact hx hc
  · exact hy hc

theorem atomic_throw_bind {fault : Fault} {f : β → Edit α γ} :
    Atomic ((throw fault : Edit α β) >>= f) l :=
  (inspects_throw fault).atomic_bind fun _ hthrow => absurd hthrow not_yields_throw

theorem atomic_modify (f : OpList α → OpList α) : Atomic (modify f : Edit α PUnit) l :=
  atomic_of_yields (b := ()) (yields_edit_modify.2 rfl)

variable [ListOp α]

theorem inspects_checkNotEnd (i : Nat) : Inspects (checkNotEnd i : Edit α Unit) :=
  inspects_get.bind fun _ => .ite (inspects_throw _) (inspects_pure _)

theorem inspects_detachedIndices (ids : List OpId) :
    Inspects (detachedIndices ids : Edit α (List Nat)) :=
  inspects_foldlM (fun _ id => (inspects_indexOf id).bind fun i =>
    (inspects_checkNotEnd i).bind fun _ => (inspects_checkUnowned i).bind fun _ =>
      .ite (inspects_throw _) (inspects_pure _)) ids []

theorem inspects_replacementIndices (old : Nat) (ids : List OpId) :
    Inspects (replacementIndices old ids : Edit α (List Nat)) :=
  inspects_foldlM (fun _ id => (inspects_indexOf id).bind fun i =>
    (inspects_checkNotEnd i).bind fun _ =>
      .ite ((inspects_checkUnowned i).bind fun _ => .ite (inspects_throw _) (inspects_pure _))
        (.ite (inspects_throw _) (inspects_pure _))) ids []

variable {is : List Nat} {ids : List OpId} {id target old new : OpId} {op : α}

omit [ListOp α] in
theorem atomic_write : Atomic (write id op) l :=
  (inspects_indexOf id).atomic_bind fun _ _ => atomic_modify _

theorem atomic_create : Atomic (create op) l := by
  unfold create
  refine .ite (fun _ => atomic_throw_bind) fun _ => inspects_get.atomic_bind fun l₁ _ => ?_
  exact atomic_of_yields (yields_bind.2 ⟨(), _, yields_edit_set.2 rfl, yields_pure.2 ⟨rfl, rfl⟩⟩)

theorem atomic_take : Atomic (take id) l :=
  (inspects_indexOf id).atomic_bind fun i _ => (inspects_checkNotEnd i).atomic_bind fun _ _ =>
    (inspects_checkUnowned i).atomic_bind fun _ _ => inspects_get.atomic_bind fun _ _ =>
      atomic_of_yields (yields_bind.2 ⟨(), _, yields_edit_set.2 rfl, yields_pure.2 ⟨rfl, rfl⟩⟩)

namespace Chain

theorem atomic_insertNodesBefore (h : l.Chain is) :
    Atomic (OpList.insertNodesBefore ids target) l := by
  refine (inspects_indexOf target).atomic_bind fun i _ => ?_
  refine (inspects_checkOwned i).atomic_bind fun _ howned => ?_
  refine .ite (fun _ => atomic_throw_bind) fun hhead => ?_
  refine (inspects_detachedIndices ids).atomic_bind fun js hjs => ?_
  obtain ⟨howned, -⟩ := yields_checkOwned.1 howned
  obtain ⟨hids, rfl, -⟩ := yields_detachedIndices.1 hjs
  obtain ⟨front, back, rfl, rfl⟩ := exists_cut_before (h.owned_iff.1 howned) hhead
  obtain ⟨_, hyields, -⟩ := h.forM_linkBefore (hids.free h)
  exact atomic_of_yields hyields

theorem atomic_insertNodeAfter (h : l.Chain is) : Atomic (OpList.insertNodeAfter id target) l := by
  refine (inspects_indexOf target).atomic_bind fun t _ => ?_
  refine (inspects_checkOwned t).atomic_bind fun _ howned => ?_
  refine .ite (fun _ => atomic_throw_bind) fun htail => ?_
  refine (inspects_indexOf id).atomic_bind fun i _ => ?_
  refine (inspects_checkNotEnd i).atomic_bind fun _ _ => ?_
  refine (inspects_checkUnowned i).atomic_bind fun _ _ => ?_
  obtain ⟨howned, -⟩ := yields_checkOwned.1 howned
  obtain ⟨front, back, rfl, rfl⟩ := exists_cut_after (h.owned_iff.1 howned) htail
  exact atomic_of_yields (b := ()) (yields_bind.2 ⟨_, _, yields_after.2 ⟨h.next?_getLastD, rfl⟩,
    yields_edit_modify.2 rfl⟩)

theorem yields_unlink_of_checks {i : Nat} {u v : Unit} (h : l.Chain is)
    (hend : Yields (checkNotEnd i) l u l) (howned : Yields (checkOwned i) l v l) :
    ∃ prev next l', Yields (OpList.unlink i : Edit α (Nat × Nat)) l (prev, next) l' := by
  have hmem := h.mem_of_owned (yields_checkOwned.1 howned).1 (yields_checkNotEnd.1 hend).1
  obtain ⟨front, back, rfl⟩ := List.append_of_mem hmem
  exact ⟨_, _, _, h.yields_unlink_iff.2 ⟨rfl, rfl⟩⟩

theorem atomic_remove (h : l.Chain is) : Atomic (OpList.remove id) l := by
  refine (inspects_indexOf id).atomic_bind fun i _ => ?_
  refine (inspects_checkNotEnd i).atomic_bind fun _ hend => ?_
  refine (inspects_checkOwned i).atomic_bind fun _ howned => ?_
  obtain ⟨prev, next, l₁, hunlink⟩ := h.yields_unlink_of_checks hend howned
  exact atomic_of_yields (yields_bind.2 ⟨_, _, hunlink, yields_pure.2 ⟨rfl, rfl⟩⟩)

theorem atomic_replaceNode (h : l.Chain is) : Atomic (OpList.replaceNode old new) l := by
  refine (inspects_indexOf old).atomic_bind fun i _ => ?_
  refine (inspects_indexOf new).atomic_bind fun j _ => ?_
  refine (inspects_checkNotEnd i).atomic_bind fun _ hend => ?_
  refine (inspects_checkNotEnd j).atomic_bind fun _ _ => ?_
  refine (inspects_checkOwned i).atomic_bind fun _ howned => ?_
  refine (inspects_checkUnowned j).atomic_bind fun _ _ => ?_
  obtain ⟨prev, next, l₁, hunlink⟩ := h.yields_unlink_of_checks hend howned
  exact atomic_of_yields (b := ()) (yields_bind.2 ⟨_, _, hunlink, yields_edit_modify.2 rfl⟩)

theorem atomic_replaceWithMany (h : l.Chain is) : Atomic (OpList.replaceWithMany old ids) l := by
  refine .ite (fun _ => h.atomic_remove) fun _ => ?_
  refine (inspects_indexOf old).atomic_bind fun i _ => ?_
  refine (inspects_checkNotEnd i).atomic_bind fun _ hend => ?_
  refine (inspects_checkOwned i).atomic_bind fun _ howned => ?_
  refine (inspects_replacementIndices i ids).atomic_bind fun js _ => ?_
  obtain ⟨prev, next, l₁, hunlink⟩ := h.yields_unlink_of_checks hend howned
  exact atomic_of_yields (b := ()) (yields_bind.2 ⟨_, _, hunlink, yields_edit_modify.2 rfl⟩)

theorem atomic_prependNodes (h : l.Chain is) : Atomic (OpList.prependNodes ids) l :=
  .ite (fun _ => (inspects_pure _).atomic) fun _ => inspects_get.atomic_bind fun _ _ =>
    h.atomic_insertNodesBefore

theorem atomic_pushNode (h : l.Chain is) : Atomic (OpList.pushNode id) l :=
  inspects_get.atomic_bind fun _ _ => h.atomic_insertNodesBefore

end Chain

/-! ## Rejected commands -/

/-- When operations are created first and the rest is atomic, a failure leaves at most these
operations behind. -/
theorem allocAll_of_rejects {ops : List α} {f : List OpId → Edit α β}
    {g : β → γ} (hf : ∀ ids, Atomic (f ids) (l.allocAll ops))
    (h : Rejects (g <$> (ops.mapM create >>= f)) l l') : ∃ ops, l' = l.allocAll ops := by
  rcases rejects_bind.1 (rejects_map.1 h) with hcreate | ⟨ids, l₁, hcreate, hrest⟩
  · clear hf h
    induction ops generalizing l with
    | nil => exact absurd hcreate not_rejects_pure
    | cons op ops ih =>
      rw [List.mapM_cons] at hcreate
      rcases rejects_bind.1 hcreate with hfirst | ⟨_, l₁, hfirst, hrest⟩
      · exact ⟨[], atomic_create l' hfirst⟩
      · obtain ⟨-, -, rfl⟩ := yields_create.1 hfirst
        rcases rejects_bind.1 hrest with hrest | ⟨_, _, -, hpure⟩
        · obtain ⟨ops, rfl⟩ := ih hrest
          exact ⟨op :: ops, rfl⟩
        · exact absurd hpure not_rejects_pure
  · obtain ⟨-, -, rfl⟩ := yields_mapM_create.1 hcreate
    exact ⟨ops, hf ids l' hrest⟩

theorem allocAll_of_rejects_one {f : OpId → Edit α β}
    {g : β → γ} (hf : ∀ id, Atomic (f id) (l.allocAll [op]))
    (h : Rejects (g <$> (create op >>= f)) l l') : ∃ ops, l' = l.allocAll ops := by
  rcases rejects_bind.1 (rejects_map.1 h) with hcreate | ⟨id, l₁, hcreate, hrest⟩
  · exact ⟨[], atomic_create l' hcreate⟩
  · obtain ⟨-, -, rfl⟩ := yields_create_iff_allocAll.1 hcreate
    exact ⟨[op], hf id l' hrest⟩

omit [ListOp α] in
theorem Atomic.bind_pure {x : Edit α β} {c : γ} (h : Atomic x l) :
    Atomic (x >>= fun _ => pure c) l := by
  intro l' hrejects
  rcases rejects_bind.1 hrejects with hfirst | ⟨_, _, -, hpure⟩
  · exact h l' hfirst
  · exact absurd hpure not_rejects_pure

theorem Chain.allocAll_of_rejected (h : l.Chain is) {command : Command α}
    (hrejects : Rejects command.edit l l') : ∃ ops, l' = l.allocAll ops := by
  have hatomic {β γ : Type} {x : Edit α β} {g : β → γ} (hx : Atomic x l)
      (h : Rejects (g <$> x) l l') : ∃ ops, l' = l.allocAll ops :=
    ⟨[], hx l' (rejects_map.1 h)⟩
  cases command with
  | create op => exact hatomic atomic_create hrejects
  | push op =>
    exact allocAll_of_rejects_one (fun _ => (h.allocAll [op]).atomic_pushNode.bind_pure) hrejects
  | pushNode id => exact hatomic h.atomic_pushNode hrejects
  | pushAll ops =>
    exact allocAll_of_rejects (fun _ => inspects_get.atomic_bind fun _ _ =>
      (h.allocAll ops).atomic_insertNodesBefore.bind_pure) hrejects
  | prepend ops =>
    exact allocAll_of_rejects (fun _ => (h.allocAll ops).atomic_prependNodes.bind_pure) hrejects
  | prependNodes ids => exact hatomic h.atomic_prependNodes hrejects
  | insertBefore op target =>
    exact allocAll_of_rejects_one (fun _ => (h.allocAll [op]).atomic_insertNodesBefore.bind_pure)
      hrejects
  | insertNodeBefore id target => exact hatomic h.atomic_insertNodesBefore hrejects
  | insertNodesBefore ids target => exact hatomic h.atomic_insertNodesBefore hrejects
  | insertAfter op target =>
    exact allocAll_of_rejects_one (fun _ => (h.allocAll [op]).atomic_insertNodeAfter.bind_pure)
      hrejects
  | insertNodeAfter id target => exact hatomic h.atomic_insertNodeAfter hrejects
  | replace old op =>
    exact allocAll_of_rejects_one (fun _ => (h.allocAll [op]).atomic_replaceNode.bind_pure) hrejects
  | replaceNode old new => exact hatomic h.atomic_replaceNode hrejects
  | replaceWithMany old ids => exact hatomic h.atomic_replaceWithMany hrejects
  | remove id => exact hatomic h.atomic_remove hrejects
  | take id => exact hatomic atomic_take hrejects
  | write id op => exact hatomic atomic_write hrejects

/-! ## Runs of commands, accepted or not -/

/-- The list after some commands were tried in order, each of them accepted or rejected. -/
def replay (l : OpList α) (commands : List (Command α)) : OpList α :=
  commands.foldl (fun l command => (command.edit.result l).2) l

theorem replay_induction {P : OpList α → Prop} {commands : List (Command α)} (hlinked : l.Linked)
    (hl : P l) (hedit : ∀ command ∈ commands, ∀ (l l' : OpList α) (is : List Nat), l.Chain is →
      Effect l command is l' → P l → P l')
    (halloc : ∀ (l : OpList α) (ops : List α), l.Linked → P l → P (l.allocAll ops)) :
    (l.replay commands).Linked ∧ P (l.replay commands) := by
  induction commands generalizing l with
  | nil => exact ⟨hlinked, hl⟩
  | cons command commands ih =>
    rw [List.forall_mem_cons] at hedit
    obtain ⟨is, hchain⟩ := hlinked
    rcases yields_or_rejects command.edit l with ⟨reply, hyields⟩ | hrejects
    · exact ih (Linked.step ⟨is, hchain⟩ hyields).1
        (hedit.1 l _ is hchain (hchain.edit hyields) hl) hedit.2
    · obtain ⟨ops, hops⟩ := hchain.allocAll_of_rejected hrejects
      have hstep : (command.edit.result l).2.Linked ∧ P (command.edit.result l).2 := by
        rw [hops]
        exact ⟨⟨is, hchain.allocAll ops⟩, halloc l ops ⟨is, hchain⟩ hl⟩
      exact ih hstep.1 hstep.2 hedit.2

theorem Linked.replay (h : l.Linked) (commands : List (Command α)) : (l.replay commands).Linked :=
  (replay_induction (P := fun _ => True) h trivial (fun _ _ _ _ _ _ _ _ => trivial)
    fun _ _ _ _ => trivial).1

/-- The lists that commands can produce. -/
def Reachable (l : OpList α) : Prop :=
  ∃ id arena history, (empty id arena).replay history = l

theorem Reachable.linked (h : l.Reachable) : l.Linked := by
  obtain ⟨id, arena, history, rfl⟩ := h
  exact (Linked.empty id arena).replay history

/-! ## What stays -/

omit [ListOp α] in
theorem getElem?_nodes_allocAll (ops : List α) {i : Nat} (hi : i < l.nodes.size) :
    (l.allocAll ops).nodes[i]? = l.nodes[i]? := by
  induction ops generalizing l with
  | nil => rfl
  | cons op ops ih =>
    have hlt : i < (l.alloc op).nodes.size := by
      rw [nodes_size_alloc]
      omega
    calc
      ((l.alloc op).allocAll ops).nodes[i]? = (l.alloc op).nodes[i]? := ih hlt
      _ = l.nodes[i]? := by
        rw [alloc, Array.getElem?_push]
        have hne : i ≠ l.nodes.size := by omega
        simp [hne]

/-- The list `l'` is `l`, apart from new nodes which are all detached. -/
structure Unchanged (l l' : OpList α) : Prop where
  id : l'.id = l.id
  arena : l'.arena = l.arena
  len : l'.len = l.len
  /-- Every node has the neighbours, the owner and the operation that it had. -/
  nodes : ∀ i < l.nodes.size, l'.nodes[i]? = l.nodes[i]?
  chain : l'.ids = l.ids
  chainRev : l'.indicesRev = l.indicesRev
  toList : l'.toList = l.toList
  new : ∀ i, l.nodes.size ≤ i → l'.isDetached i = true

omit [ListOp α] in
theorem Chain.unchanged_allocAll (h : l.Chain is) (ops : List α) :
    Unchanged l (l.allocAll ops) := by
  have hops := h.allocAll ops
  refine ⟨allocAll_id ops, allocAll_arena ops, ?_, fun i => getElem?_nodes_allocAll ops, ?_, ?_,
    ?_, ?_⟩
  · rw [h.len, hops.len]
  · rw [h.ids_eq, hops.ids_eq]
    simp [opId, allocAll_id, allocAll_arena]
  · rw [h.indicesRev_eq, hops.indicesRev_eq]
  · rw [toList, toList, h.indices_eq, hops.indices_eq]
    exact List.filterMap_congr fun i hi => op?_allocAll ops (h.lt_size hi)
  · intro i hi
    refine hops.isDetached_of_notMem fun hmem => ?_
    have hlt := h.bound i hmem
    omega

/-! ## Nodes that lost their operation -/

/-- A detached node of the list whose operation was moved out. -/
structure Tombstone (l : OpList α) (id : OpId) : Prop where
  holds : l.holds id = true
  op : ∃ op, l.op? id.index = some op ∧ ListOp.isListEnd op = true
  unowned : l.owner? id.index = none

/-- Commands that handle nodes; the others put operations into nodes from outside. -/
def Command.isStructural : Command α → Bool
  | .write _ _ => false
  | _ => true

namespace Tombstone

theorem lt_size (h : l.Tombstone id) : id.index < l.nodes.size := by
  obtain ⟨op, hop, -⟩ := h.op
  by_contra hge
  simp [op?, Nat.le_of_not_lt hge] at hop

theorem isEnd (h : l.Tombstone id) : l.isEnd id.index = true := by
  obtain ⟨op, hop, hend⟩ := h.op
  simp [OpList.isEnd, hop, hend]

theorem isDetached (h : l.Tombstone id) (hlinked : l.Linked) : l.isDetached id.index = true := by
  obtain ⟨is, hchain⟩ := hlinked
  exact hchain.isDetached_of_notMem (hchain.unowned_iff.1 h.unowned)

theorem notMem_ids (h : l.Tombstone id) (hlinked : l.Linked) : id ∉ l.ids := by
  obtain ⟨is, hchain⟩ := hlinked
  rw [hchain.ids_eq]
  intro hmem
  obtain ⟨i, hi, rfl⟩ := List.mem_map.1 hmem
  exact hchain.unowned_iff.1 h.unowned (Chain.mem_line.2 (.inr (.inl hi)))

theorem spliced {front old new back : List Nat} (h : l.Tombstone id)
    (hchain : l.Chain (front ++ old ++ back)) (hspliced : Spliced l l' front new back) :
    l'.Tombstone id := by
  have hop := hspliced.op? id.index h.lt_size
  have hend : l'.isEnd id.index = true := by
    rw [OpList.isEnd, hop]
    exact h.isEnd
  have hout := hchain.unowned_iff.1 h.unowned
  have hnew : id.index ∉ new := fun hmem => by
    rw [hspliced.new _ hmem] at hend
    exact absurd hend (by simp)
  refine ⟨?_, by rw [hop]; exact h.op, ?_⟩
  · simpa [OpList.holds, hspliced.id, hspliced.arena] using h.holds
  · rw [hspliced.chain.unowned_iff]
    simp only [Chain.mem_line, List.mem_append] at hout ⊢
    tauto

theorem setOp_listEnd [LawfulListOp α] (h : l.Tombstone id) (i : Nat) :
    (l.setOp i ListOp.listEnd).Tombstone id := by
  refine ⟨h.holds, ?_, by rw [owner?_setOp]; exact h.unowned⟩
  by_cases hi : i < l.nodes.size
  · rw [op?_setOp hi]
    split_ifs
    · exact ⟨_, rfl, LawfulListOp.isListEnd_listEnd⟩
    · exact h.op
  · have hsame : (l.setOp i ListOp.listEnd).op? id.index = l.op? id.index := by
      have hne : i ≠ id.index := fun heq => hi (heq ▸ h.lt_size)
      simp [op?, OpList.setOp, Array.getElem?_modify, hne]
    rw [hsame]
    exact h.op

theorem effect [LawfulListOp α] {command : Command α} (h : l.Tombstone id) (hchain : l.Chain is)
    (hstructural : command.isStructural = true) (heffect : Effect l command is l') :
    l'.Tombstone id := by
  cases heffect with
  | splice front old new back cut _ hspliced =>
    subst cut
    exact h.spliced hchain hspliced
  | overwrite i op hoverwrites heq =>
    rcases hoverwrites with ⟨_, -, -, rfl⟩ | ⟨_, rfl, -⟩
    · rw [heq]
      exact h.setOp_listEnd i
    · exact absurd hstructural (by simp [Command.isStructural])

theorem allocAll (h : l.Tombstone id) (ops : List α) (hlinked : l.Linked) :
    (l.allocAll ops).Tombstone id := by
  obtain ⟨is, hchain⟩ := hlinked
  have hwhole : l.Chain (is ++ []) := by simpa using hchain
  have hcut : l.Chain (is ++ [] ++ []) := by simpa using hchain
  exact h.spliced hcut (hwhole.spliced_allocAll ops)

theorem replay [LawfulListOp α] {commands : List (Command α)} (h : l.Tombstone id)
    (hlinked : l.Linked) (hcommands : ∀ command ∈ commands, command.isStructural = true) :
    (l.replay commands).Tombstone id :=
  (replay_induction (P := fun l => l.Tombstone id) hlinked h
    (fun command hmem _ _ _ hchain heffect ht => ht.effect hchain (hcommands command hmem) heffect)
    fun _ ops hl ht => ht.allocAll ops hl).2

theorem of_take [LawfulListOp α] (h : Yields (take id) l op l') : l'.Tombstone id := by
  simp only [OpList.take, yields_bind, yields_indexOf, yields_checkNotEnd,
    yields_checkUnowned, yields_edit_get, yields_edit_set, yields_pure] at h
  obtain ⟨_, _, ⟨hheld, rfl, rfl⟩, _, _, ⟨hend, rfl⟩, _, _, ⟨hunowned, rfl⟩, _, _, ⟨rfl, rfl⟩, _,
    _, rfl, -, rfl⟩ := h
  change (l.setOp id.index ListOp.listEnd).Tombstone id
  have hop := op?_setOp (lt_size_of_isEnd_eq_false hend) (ListOp.listEnd : α) id.index
  rw [if_pos rfl] at hop
  exact ⟨hheld, ⟨_, hop, LawfulListOp.isListEnd_listEnd⟩, by rw [owner?_setOp]; exact hunowned⟩

end Tombstone

/-! ## The main result -/

/-- On every list that commands can produce, a rejected command changes nothing but the supply of
detached nodes; and a node whose operation was moved out is not linked by any later commands. -/
theorem rejected_command_changes_nothing [LawfulListOp α] {l : OpList α} (h : l.Reachable) :
    (∀ (command : Command α) fault l',
        command.edit.result l = (.error fault, l') → l.Unchanged l') ∧
      ∀ taken op l', (take taken).result l = (.ok op, l') →
        ∀ later, (∀ command ∈ later, command.isStructural = true) →
          taken ∉ (l'.replay later).ids ∧ (l'.replay later).isDetached taken.index = true := by
  have hlinked := h.linked
  constructor
  · intro command fault l' hresult
    obtain ⟨is, hchain⟩ := hlinked
    obtain ⟨ops, rfl⟩ := hchain.allocAll_of_rejected ⟨fault, hresult⟩
    exact hchain.unchanged_allocAll ops
  · intro taken op l' hresult later hlater
    have htake : Yields (take taken) l op l' := yields_iff_result.2 hresult
    have hl' : l'.Linked := (hlinked.take htake).2.1
    have htomb := (Tombstone.of_take htake).replay hl' hlater
    exact ⟨htomb.notMem_ids (hl'.replay later), htomb.isDetached (hl'.replay later)⟩

def twoOfFour : List (Command CreateOp) :=
  [.pushAll [.icuEnd ⟨2⟩, .icuEnd ⟨3⟩], .create (.icuEnd ⟨4⟩), .create (.icuEnd ⟨5⟩)]

/-- A run with a linked operation at its end is rejected, and so is every later attempt to link
the operation that was moved out. -/
theorem rejected_command_changes_nothing_twoOfFour :
    let node (index : Nat) : OpId := { list := ⟨0⟩, arena := 0, index }
    let later : List (Command CreateOp) :=
      [.insertNodesBefore [node 4, node 5] (node 3), .pushNode (node 5), .pushNode (node 4)]
    let l : OpList CreateOp := (empty ⟨0⟩ 0).replay twoOfFour
    let l₁ := ((Command.replaceWithMany (node 2) [node 4, node 3]).edit.result l).2
    let l₂ := ((take (node 5)).result l).2
    l.Reachable ∧
      (Command.replaceWithMany (node 2) [node 4, node 3]).edit.result l =
        (.error (.alreadyOwned ⟨0⟩), l₁) ∧
      l.Unchanged l₁ ∧
      (take (node 5)).result l = (.ok (.icuEnd ⟨5⟩), l₂) ∧
      (l₂.replay later).ids = [node 2, node 3, node 4] ∧
      node 5 ∉ (l₂.replay later).ids := by
  intro node later l l₁ l₂
  have h : l.Reachable := ⟨_, _, _, rfl⟩
  have hrejected : (Command.replaceWithMany (node 2) [node 4, node 3]).edit.result l =
      (.error (.alreadyOwned ⟨0⟩), l₁) := Prod.ext rfl rfl
  have htaken : (take (node 5)).result l = (.ok (.icuEnd ⟨5⟩), l₂) := Prod.ext rfl rfl
  have hlater : ∀ command ∈ later, command.isStructural = true := by
    simp [later, Command.isStructural]
  exact ⟨h, hrejected, (rejected_command_changes_nothing h).1 _ _ _ hrejected, htaken,
    by decide +kernel, ((rejected_command_changes_nothing h).2 _ _ _ htaken later hlater).1⟩

end TemplateLowering.OpList
