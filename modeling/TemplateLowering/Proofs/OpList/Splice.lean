import TemplateLowering.Proofs.OpList.Sequence

/-!
# Splices

Whatever an accepted command does to the links of a list, it does at one cut of the chain: it may
create operations, takes out at most one node and puts a run of nodes in its place.  The other
commands change no link.  `Chain.edit` says so for all commands at once, and also which cut it is;
what is claimed about sequences of edits is derived from this lemma alone.
-/

namespace TemplateLowering.OpList

variable {α : Type} {l l₁ l' : OpList α} {is front old new back : List Nat} {i : Nat} {id : OpId}

/-- Where a command changes the links of a list. -/
inductive Place
  | nowhere
  | start
  | finish
  | before (target : OpId)
  | after (target : OpId)
  | instead (target : OpId)
deriving DecidableEq

def Command.place : Command α → Place
  | .create _ | .take _ | .write _ _ => .nowhere
  | .prepend _ | .prependNodes _ => .start
  | .push _ | .pushNode _ | .pushAll _ => .finish
  | .insertBefore _ target | .insertNodeBefore _ target | .insertNodesBefore _ target =>
      .before target
  | .insertAfter _ target | .insertNodeAfter _ target => .after target
  | .replace target _ | .replaceNode target _ | .replaceWithMany target _ | .remove target =>
      .instead target

/-- A place at which the nodes `old` of the chain `front ++ old ++ back` become the nodes `new`. -/
def Place.Cuts (l : OpList α) (front old new back : List Nat) : Place → Prop
  | .nowhere => old = [] ∧ new = []
  | .start => old = [] ∧ front = []
  | .finish => old = [] ∧ back = []
  | .before target => old = [] ∧ target = l.opId (back.headD tailIndex)
  | .after target => old = [] ∧ target = l.opId (front.getLastD headIndex)
  | .instead target => old = [target.index] ∧ target = l.opId target.index

theorem Place.cuts_congr (hid : l₁.id = l.id) (harena : l₁.arena = l.arena) (place : Place) :
    place.Cuts l₁ front old new back ↔ place.Cuts l front old new back := by
  cases place <;> simp only [Place.Cuts, OpList.opId, hid, harena]

variable [ListOp α]

/-- The list `l'` has the chain `front ++ new ++ back`; the nodes that `l` has are still there with
their operations. -/
structure Spliced (l l' : OpList α) (front new back : List Nat) : Prop where
  chain : l'.Chain (front ++ new ++ back)
  id : l'.id = l.id
  arena : l'.arena = l.arena
  op? : ∀ i < l.nodes.size, l'.op? i = l.op? i
  /-- What is put into the chain is an operation. -/
  new : ∀ i ∈ new, l'.isEnd i = false

omit [ListOp α] in
theorem op?_allocAll (ops : List α) (hi : i < l.nodes.size) : (l.allocAll ops).op? i = l.op? i := by
  induction ops generalizing l with
  | nil => rfl
  | cons op ops ih =>
    have hlt : i < (l.alloc op).nodes.size := by
      rw [nodes_size_alloc]
      omega
    have hne : i ≠ l.nodes.size := by omega
    calc
      ((l.alloc op).allocAll ops).op? i = (l.alloc op).op? i := ih hlt
      _ = l.op? i := by rw [op?_alloc, if_neg hne]

omit [ListOp α] in
theorem nodes_size_allocAll (ops : List α) :
    (l.allocAll ops).nodes.size = l.nodes.size + ops.length := by
  have hlength := congrArg List.length (allocAll_nodes (l := l) ops)
  simpa using hlength

theorem Spliced.of_allocAll {ops : List α} (h : Spliced (l.allocAll ops) l' front new back) :
    Spliced l l' front new back := by
  refine ⟨h.chain, h.id.trans (allocAll_id ops), h.arena.trans (allocAll_arena ops), ?_, h.new⟩
  intro i hi
  have hlt : i < (l.allocAll ops).nodes.size := by
    rw [nodes_size_allocAll]
    omega
  rw [h.op? i hlt, op?_allocAll ops hi]

theorem SameArena.isEnd (h : SameArena l l') (i : Nat) : l'.isEnd i = l.isEnd i := by
  simp only [OpList.isEnd, h.op?]

theorem SameArena.spliced (h : SameArena l l') (hl' : l'.Chain (front ++ new ++ back))
    (hnew : ∀ i ∈ new, l.isEnd i = false) : Spliced l l' front new back := by
  refine ⟨hl', h.id, h.arena, fun i _ => h.op? i, ?_⟩
  intro i hi
  rw [h.isEnd]
  exact hnew i hi

theorem Chain.spliced_allocAll (h : l.Chain (front ++ back)) (ops : List α) :
    Spliced l (l.allocAll ops) front [] back :=
  .of_allocAll (SameArena.spliced (.refl _) (by simpa using h.allocAll ops) (by simp))

variable {ids : List OpId} {target : OpId} {u : Unit}

theorem Insertable.isEnd_index (h : l.Insertable ids) :
    ∀ i ∈ ids.map OpId.index, l.isEnd i = false := by
  intro i hi
  obtain ⟨id, hid, rfl⟩ := List.mem_map.1 hi
  exact (h.each id hid).2.1

/-! ## The linking operations -/

theorem Chain.spliced_insertNodesBefore (h : l.Chain is)
    (hyields : Yields (OpList.insertNodesBefore ids target) l u l') :
    ∃ front back, is = front ++ back ∧ target = l.opId (back.headD tailIndex) ∧
      Spliced l l' front (ids.map OpId.index) back := by
  obtain ⟨hids, hsame, front, back, hcut, htarget, hl'⟩ := h.of_insertNodesBefore hyields
  exact ⟨front, back, hcut, htarget, hsame.spliced hl' hids.isEnd_index⟩

theorem Chain.spliced_pushNodes (h : l.Chain is)
    (hyields : Yields (OpList.insertNodesBefore ids l.tail) l u l') :
    Spliced l l' is (ids.map OpId.index) [] := by
  obtain ⟨front, back, rfl, htarget, hspliced⟩ := h.spliced_insertNodesBefore hyields
  have hback : back = [] := by
    have htail := h.tailIndex_notMem
    have hhead : tailIndex = back.headD tailIndex := l.opId_injective htarget
    cases back with
    | nil => rfl
    | cons i back => exact absurd hhead (by rintro rfl; simp at htail)
  subst hback
  simpa using hspliced

theorem Chain.spliced_prependNodes (h : l.Chain is)
    (hyields : Yields (OpList.prependNodes ids) l u l') :
    Spliced l l' [] (ids.map OpId.index) is := by
  by_cases hne : ids = []
  · subst hne
    simp only [OpList.prependNodes, List.isEmpty_nil, if_true, yields_pure] at hyields
    obtain ⟨-, rfl⟩ := hyields
    exact SameArena.spliced (.refl _) (by simpa using h) (by simp)
  · have hempty : ids.isEmpty = false := by simpa using hne
    simp only [OpList.prependNodes, hempty, Bool.false_eq_true, if_false, yields_bind,
      yields_edit_get] at hyields
    obtain ⟨_, _, ⟨rfl, rfl⟩, hyields⟩ := hyields
    have hstart : l.Chain ([] ++ is) := by simpa using h
    have hfirst := hstart.next?_getLastD
    rw [List.getLastD_nil] at hfirst
    rw [hfirst, Option.getD_some] at hyields
    obtain ⟨front, back, rfl, htarget, hspliced⟩ := h.spliced_insertNodesBefore hyields
    have hfront : front = [] := by
      have hhead := l.opId_injective htarget
      have hnodup := h.indices_nodup
      have htail := h.tailIndex_notMem
      cases front with
      | nil => rfl
      | cons i front => cases back <;> simp_all
    subst hfront
    simpa using hspliced

theorem Chain.spliced_insertNodeAfter (h : l.Chain is)
    (hyields : Yields (OpList.insertNodeAfter id target) l u l') :
    ∃ front back, is = front ++ back ∧ target = l.opId (front.getLastD headIndex) ∧
      Spliced l l' front [id.index] back := by
  obtain ⟨hid, hsame, front, back, hcut, htarget, hl'⟩ := h.of_insertNodeAfter hyields
  exact ⟨front, back, hcut, htarget, hsame.spliced (by simpa using hl') hid.isEnd_index⟩

theorem Chain.spliced_remove (h : l.Chain is) (hyields : Yields (OpList.remove id) l u l') :
    ∃ front back, is = front ++ [id.index] ++ back ∧ id = l.opId id.index ∧
      Spliced l l' front [] back := by
  obtain ⟨hsame, front, back, hcut, hid, hl'⟩ := h.of_remove hyields
  exact ⟨front, back, by simpa using hcut, hid, hsame.spliced (by simpa using hl') (by simp)⟩

theorem Chain.spliced_replaceNode (h : l.Chain is)
    (hyields : Yields (OpList.replaceNode id target) l u l') :
    ∃ front back, is = front ++ [id.index] ++ back ∧ id = l.opId id.index ∧
      Spliced l l' front [target.index] back := by
  obtain ⟨hnew, hsame, front, back, hcut, hid, hl'⟩ := h.of_replaceNode hyields
  exact ⟨front, back, by simpa using hcut, hid,
    hsame.spliced (by simpa using hl') hnew.isEnd_index⟩

theorem Chain.spliced_replaceWithMany (h : l.Chain is)
    (hyields : Yields (OpList.replaceWithMany id ids) l u l') :
    ∃ front back, is = front ++ [id.index] ++ back ∧ id = l.opId id.index ∧
      Spliced l l' front (ids.map OpId.index) back := by
  by_cases hne : ids = []
  · subst hne
    exact h.spliced_remove hyields
  · obtain ⟨hids, hsame, front, back, hcut, hid, hl'⟩ := h.of_replaceWithMany hne hyields
    refine ⟨front, back, by simpa using hcut, hid, hsame.spliced hl' ?_⟩
    intro i hi
    obtain ⟨new, hnew, rfl⟩ := List.mem_map.1 hi
    exact (hids.each new hnew).2.1

/-! ## All commands -/

def Command.Overwrites (command : Command α) (i : Nat) (op : α) : Prop :=
  (∃ id, command = .take id ∧ id.index = i ∧ op = ListOp.listEnd) ∨
    ∃ id, command = .write id op ∧ id.index = i

/-- What an accepted command does: it splices the chain at its place, or overwrites a node. -/
inductive Effect (l : OpList α) (command : Command α) (is : List Nat) (l' : OpList α) : Prop
  | splice (front old new back : List Nat) (cut : is = front ++ old ++ back)
      (place : command.place.Cuts l front old new back) (spliced : Spliced l l' front new back)
  | overwrite (i : Nat) (op : α) (overwrites : command.Overwrites i op) (eq : l' = l.setOp i op)

theorem Effect.of_allocAll {command : Command α} {ops : List α} (cut : is = front ++ old ++ back)
    (place : command.place.Cuts (l.allocAll ops) front old new back)
    (spliced : Spliced (l.allocAll ops) l' front new back) : Effect l command is l' :=
  .splice front old new back cut
    ((Place.cuts_congr (allocAll_id ops) (allocAll_arena ops) _).1 place) spliced.of_allocAll

theorem yields_create_iff_allocAll {op : α} :
    Yields (create op : Edit α OpId) l id l' ↔
      ListOp.isListEnd op = false ∧ l.opId l.nodes.size = id ∧ l.allocAll [op] = l' :=
  yields_create

theorem Chain.edit (h : l.Chain is) {command : Command α} {reply : Reply α}
    (hyields : Yields command.edit l reply l') : Effect l command is l' := by
  cases command with
  | create op =>
    obtain ⟨_, hcreate, -⟩ := yields_map.1 hyields
    obtain ⟨-, -, rfl⟩ := yields_create_iff_allocAll.1 hcreate
    exact .splice is [] [] [] (by simp) ⟨rfl, rfl⟩ (Chain.spliced_allocAll (by simpa using h) [op])
  | push op =>
    obtain ⟨_, hpush, -⟩ := yields_map.1 hyields
    simp only [OpList.push, OpList.pushNode, yields_bind, yields_pure, yields_edit_get,
      yields_create_iff_allocAll] at hpush
    obtain ⟨_, _, ⟨-, -, rfl⟩, _, _, ⟨_, _, ⟨rfl, rfl⟩, hlink⟩, -, rfl⟩ := hpush
    exact .of_allocAll (by simp) ⟨rfl, rfl⟩ ((h.allocAll [op]).spliced_pushNodes hlink)
  | pushNode id =>
    obtain ⟨_, hpush, -⟩ := yields_map.1 hyields
    simp only [OpList.pushNode, yields_bind, yields_edit_get] at hpush
    obtain ⟨_, _, ⟨rfl, rfl⟩, hlink⟩ := hpush
    exact .splice _ [] _ _ (by simp) ⟨rfl, rfl⟩ (h.spliced_pushNodes hlink)
  | pushAll ops =>
    obtain ⟨_, hpush, -⟩ := yields_map.1 hyields
    simp only [OpList.pushAll, yields_bind, yields_pure, yields_edit_get,
      yields_mapM_create] at hpush
    obtain ⟨_, _, ⟨-, -, rfl⟩, _, _, ⟨rfl, rfl⟩, _, _, hlink, -, rfl⟩ := hpush
    exact .of_allocAll (by simp) ⟨rfl, rfl⟩ ((h.allocAll ops).spliced_pushNodes hlink)
  | prepend ops =>
    obtain ⟨_, hprepend, -⟩ := yields_map.1 hyields
    simp only [OpList.prepend, yields_bind, yields_pure, yields_mapM_create] at hprepend
    obtain ⟨_, _, ⟨-, -, rfl⟩, _, _, hlink, -, rfl⟩ := hprepend
    exact .of_allocAll (by simp) ⟨rfl, rfl⟩ ((h.allocAll ops).spliced_prependNodes hlink)
  | prependNodes ids =>
    obtain ⟨_, hlink, -⟩ := yields_map.1 hyields
    exact .splice _ [] _ _ (by simp) ⟨rfl, rfl⟩ (h.spliced_prependNodes hlink)
  | insertBefore op target =>
    obtain ⟨_, hinsert, -⟩ := yields_map.1 hyields
    simp only [OpList.insertBefore, yields_bind, yields_pure,
      yields_create_iff_allocAll] at hinsert
    obtain ⟨_, _, ⟨-, -, rfl⟩, _, _, hlink, -, rfl⟩ := hinsert
    obtain ⟨front, back, hcut, htarget, hspliced⟩ :=
      (h.allocAll [op]).spliced_insertNodesBefore hlink
    exact .of_allocAll (by simpa using hcut) ⟨rfl, htarget⟩ hspliced
  | insertNodeBefore id target =>
    obtain ⟨_, hlink, -⟩ := yields_map.1 hyields
    obtain ⟨front, back, hcut, htarget, hspliced⟩ := h.spliced_insertNodesBefore hlink
    exact .splice front [] _ back (by simpa using hcut) ⟨rfl, htarget⟩ hspliced
  | insertNodesBefore ids target =>
    obtain ⟨_, hlink, -⟩ := yields_map.1 hyields
    obtain ⟨front, back, hcut, htarget, hspliced⟩ := h.spliced_insertNodesBefore hlink
    exact .splice front [] _ back (by simpa using hcut) ⟨rfl, htarget⟩ hspliced
  | insertAfter op target =>
    obtain ⟨_, hinsert, -⟩ := yields_map.1 hyields
    simp only [OpList.insertAfter, yields_bind, yields_pure,
      yields_create_iff_allocAll] at hinsert
    obtain ⟨_, _, ⟨-, -, rfl⟩, _, _, hlink, -, rfl⟩ := hinsert
    obtain ⟨front, back, hcut, htarget, hspliced⟩ :=
      (h.allocAll [op]).spliced_insertNodeAfter hlink
    exact .of_allocAll (by simpa using hcut) ⟨rfl, htarget⟩ hspliced
  | insertNodeAfter id target =>
    obtain ⟨_, hlink, -⟩ := yields_map.1 hyields
    obtain ⟨front, back, hcut, htarget, hspliced⟩ := h.spliced_insertNodeAfter hlink
    exact .splice front [] _ back (by simpa using hcut) ⟨rfl, htarget⟩ hspliced
  | replace old op =>
    obtain ⟨_, hreplace, -⟩ := yields_map.1 hyields
    simp only [OpList.replace, yields_bind, yields_pure, yields_create_iff_allocAll] at hreplace
    obtain ⟨_, _, ⟨-, -, rfl⟩, _, _, hlink, -, rfl⟩ := hreplace
    obtain ⟨front, back, hcut, hold, hspliced⟩ := (h.allocAll [op]).spliced_replaceNode hlink
    exact .of_allocAll hcut ⟨rfl, hold⟩ hspliced
  | replaceNode old new =>
    obtain ⟨_, hlink, -⟩ := yields_map.1 hyields
    obtain ⟨front, back, hcut, hold, hspliced⟩ := h.spliced_replaceNode hlink
    exact .splice front _ _ back hcut ⟨rfl, hold⟩ hspliced
  | replaceWithMany old ids =>
    obtain ⟨_, hlink, -⟩ := yields_map.1 hyields
    obtain ⟨front, back, hcut, hold, hspliced⟩ := h.spliced_replaceWithMany hlink
    exact .splice front _ _ back hcut ⟨rfl, hold⟩ hspliced
  | remove id =>
    obtain ⟨_, hremove, -⟩ := yields_map.1 hyields
    obtain ⟨front, back, hcut, hid, hspliced⟩ := h.spliced_remove hremove
    exact .splice front _ _ back hcut ⟨rfl, hid⟩ hspliced
  | take id =>
    obtain ⟨_, htake, -⟩ := yields_map.1 hyields
    simp only [OpList.take, yields_bind, yields_indexOf, yields_checkNotEnd,
      yields_checkUnowned, yields_edit_get, yields_edit_set, yields_pure] at htake
    obtain ⟨_, _, ⟨-, rfl, rfl⟩, _, _, ⟨-, rfl⟩, _, _, ⟨-, rfl⟩, _, _, ⟨rfl, rfl⟩, _, _, hset,
      -, rfl⟩ := htake
    exact .overwrite id.index _ (.inl ⟨id, rfl, rfl, rfl⟩) hset.symm
  | write id op =>
    obtain ⟨_, hwrite, -⟩ := yields_map.1 hyields
    simp only [OpList.write, yields_bind, yields_indexOf, yields_edit_modify] at hwrite
    obtain ⟨_, _, ⟨-, rfl, rfl⟩, hset⟩ := hwrite
    exact .overwrite id.index op (.inr ⟨id, rfl, rfl⟩) hset.symm

end TemplateLowering.OpList
