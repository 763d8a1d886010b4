import TemplateLowering.Op.Create
import TemplateLowering.Proofs.OpList.Payload

/-!
# Lists of operations as plain sequences

A `Sequence` is what a list of operations stands for: the handles of the linked operations as an
ordinary list, beside a table of all operations that were ever created.  Each operation on lists has
a plain counterpart on sequences: it appends, prepends, inserts at a place, replaces at a place by a
run, or deletes.  The main theorem says that every run of accepted operations keeps the two in step
and that everything one can read off the linked list is read off the plain one.
-/

namespace TemplateLowering.OpList

/-! ## Commands -/

/-- An operation on a list, with its arguments. -/
inductive Command (α : Type)
  | create (op : α)
  | push (op : α)
  | pushNode (id : OpId)
  | pushAll (ops : List α)
  | prepend (ops : List α)
  | prependNodes (ids : List OpId)
  | insertBefore (op : α) (target : OpId)
  | insertNodeBefore (id target : OpId)
  | insertNodesBefore (ids : List OpId) (target : OpId)
  | insertAfter (op : α) (target : OpId)
  | insertNodeAfter (id target : OpId)
  | replace (old : OpId) (op : α)
  | replaceNode (old new : OpId)
  | replaceWithMany (old : OpId) (ids : List OpId)
  | remove (id : OpId)
  | take (id : OpId)
  | write (id : OpId) (op : α)

/-- What an operation on a list gives back. -/
inductive Reply (α : Type)
  | done
  | created (ids : List OpId)
  | taken (op : α)

variable {α : Type}

/-! ## Sequences -/

/-- The linked operations of a list in order, by their handles, and all operations of its arena. -/
structure Sequence (α : Type) where
  id : ListId
  arena : Nat
  ops : List α
  ids : List OpId

namespace Sequence

def handle (q : Sequence α) (index : Nat) : OpId :=
  { list := q.id, arena := q.arena, index }

def fresh (q : Sequence α) (count : Nat) : List OpId :=
  (List.range' q.ops.length count).map q.handle

def create (q : Sequence α) (ops : List α) : Sequence α :=
  { q with ops := q.ops ++ ops }

/-- Puts a run before the first place of `target`; at the end, if it has none. -/
def insertBefore (q : Sequence α) (run : List OpId) (target : OpId) : Sequence α :=
  { q with ids := q.ids.takeWhile (· ≠ target) ++ run ++ q.ids.dropWhile (· ≠ target) }

def replaceBy (q : Sequence α) (run : List OpId) (target : OpId) : Sequence α :=
  { q with ids := q.ids.flatMap fun id => if id = target then run else [id] }

/-- Puts a run after `target`, or at the start if `target` is the head. -/
def insertAfter (q : Sequence α) (run : List OpId) (target : OpId) : Sequence α :=
  if target = q.handle headIndex then { q with ids := run ++ q.ids }
  else q.replaceBy (target :: run) target

def set (q : Sequence α) (id : OpId) (op : α) : Sequence α :=
  { q with ops := q.ops.set id.index op }

end Sequence

/-! ## Plain lists with a target -/

theorem flatMap_ite_of_notMem {ids run : List OpId} {target : OpId} (h : target ∉ ids) :
    (ids.flatMap fun id => if id = target then run else [id]) = ids := by
  induction ids with
  | nil => rfl
  | cons id ids ih =>
    have hne : id ≠ target := fun heq => h (by simp [heq])
    have hids : target ∉ ids := fun hmem => h (by simp [hmem])
    simp [hne, ih hids]

theorem flatMap_ite_cut {front back run : List OpId} {target : OpId}
    (h : (front ++ target :: back).Nodup) :
    ((front ++ target :: back).flatMap fun id => if id = target then run else [id]) =
      front ++ run ++ back := by
  have hfront : target ∉ front := by grind
  have hback : target ∉ back := by grind
  simp [flatMap_ite_of_notMem hfront, flatMap_ite_of_notMem hback]

theorem takeWhile_dropWhile_cut {front back : List OpId} {target : OpId}
    (hfront : target ∉ front) (hback : ∀ id ∈ back.head?, id = target) :
    (front ++ back).takeWhile (· ≠ target) = front ∧
      (front ++ back).dropWhile (· ≠ target) = back := by
  induction front with
  | nil =>
    cases back with
    | nil => simp
    | cons id back =>
      have hid : id = target := hback id (by simp)
      simp [hid]
  | cons id front ih =>
    have hne : id ≠ target := fun heq => hfront (by simp [heq])
    have hrest : target ∉ front := fun hmem => hfront (by simp [hmem])
    simpa [hne] using ih hrest

/-! ## The sequence of a list -/

/-- The sequence that a list stands for. -/
def sequence (l : OpList α) : Sequence α :=
  { id := l.id, arena := l.arena, ops := l.nodes.toList.map OpNode.op, ids := l.ids }

variable {l l' : OpList α} {is front back : List Nat} {id target : OpId}

theorem opId_injective (l : OpList α) : Function.Injective l.opId :=
  fun _ _ h => congrArg OpId.index h

theorem getElem?_sequence_ops (l : OpList α) (i : Nat) : l.sequence.ops[i]? = l.op? i := by
  simp [sequence, op?]

theorem Chain.ids_eq (h : l.Chain is) : l.ids = is.map l.opId := by
  rw [ids, h.indices_eq]

theorem Chain.ids_nodup (h : l.Chain is) : l.ids.Nodup := by
  rw [h.ids_eq]
  exact h.indices_nodup.map l.opId_injective

theorem SameArena.sequence_eq (h : SameArena l l') (hl' : l'.Chain is) :
    l'.sequence = { l.sequence with ids := is.map l.opId } := by
  have hops : l'.sequence.ops = l.sequence.ops := by
    apply List.ext_getElem?
    intro i
    rw [getElem?_sequence_ops, getElem?_sequence_ops, h.op?]
  have hids : l'.ids = is.map l.opId := by
    rw [hl'.ids_eq]
    exact List.map_congr_left fun i _ => h.opId i
  simp only [sequence] at hops ⊢
  rw [hops, hids, h.id, h.arena]

theorem Chain.sequence_allocAll (h : l.Chain is) (ops : List α) :
    (l.allocAll ops).sequence = l.sequence.create ops := by
  have hids : (l.allocAll ops).ids = l.ids := by
    rw [(h.allocAll ops).ids_eq, h.ids_eq]
    simp [opId, allocAll_id, allocAll_arena]
  simp [sequence, Sequence.create, hids, allocAll_id, allocAll_arena, allocAll_nodes]

theorem fresh_sequence (l : OpList α) (count : Nat) :
    l.sequence.fresh count = l.freshIds count := by
  simp [Sequence.fresh, freshIds, sequence, Sequence.handle, opId]

theorem Chain.insertBefore_sequence (h : l.Chain (front ++ back)) (run : List OpId) :
    l.sequence.insertBefore run (l.opId (back.headD tailIndex)) =
      { l.sequence with ids := front.map l.opId ++ run ++ back.map l.opId } := by
  have hfront : l.opId (back.headD tailIndex) ∉ front.map l.opId := by
    intro hmem
    have hmem := (List.mem_map_of_injective l.opId_injective).1 hmem
    have hnodup := h.indices_nodup
    have htail := h.tailIndex_notMem
    cases back <;> grind
  have hback : ∀ id ∈ (back.map l.opId).head?, id = l.opId (back.headD tailIndex) := by
    cases back <;> simp
  have hcut := takeWhile_dropWhile_cut hfront hback
  have hids : l.sequence.ids = front.map l.opId ++ back.map l.opId := by
    simp [sequence, h.ids_eq]
  rw [Sequence.insertBefore, hids, hcut.1, hcut.2]

theorem Chain.replaceBy_sequence {i : Nat} (h : l.Chain (front ++ i :: back)) (run : List OpId) :
    l.sequence.replaceBy run (l.opId i) =
      { l.sequence with ids := front.map l.opId ++ run ++ back.map l.opId } := by
  have hids : l.sequence.ids = front.map l.opId ++ l.opId i :: back.map l.opId := by
    simp [sequence, h.ids_eq]
  have hnodup : (front.map l.opId ++ l.opId i :: back.map l.opId).Nodup :=
    hids ▸ h.ids_nodup
  rw [Sequence.replaceBy, hids, flatMap_ite_cut hnodup]

theorem Chain.insertAfter_sequence (h : l.Chain (front ++ back)) (run : List OpId) :
    l.sequence.insertAfter run (l.opId (front.getLastD headIndex)) =
      { l.sequence with ids := front.map l.opId ++ run ++ back.map l.opId } := by
  rcases List.eq_nil_or_concat front with hnil | ⟨front', i, hfront⟩
  · subst hnil
    have hids : l.sequence.ids = back.map l.opId := by simp [sequence, h.ids_eq]
    simp [Sequence.insertAfter, Sequence.handle, sequence, opId, ← hids]
  · subst hfront
    rw [List.concat_eq_append] at h ⊢
    have hne : i ≠ headIndex := by
      have := h.headIndex_notMem
      grind
    have htarget : l.opId i ≠ l.sequence.handle headIndex := fun heq =>
      hne (congrArg OpId.index heq)
    have hi : (front' ++ [i]).getLastD headIndex = i := by simp
    rw [List.append_assoc] at h
    rw [hi, Sequence.insertAfter, if_neg htarget, h.replaceBy_sequence]
    simp

theorem Chain.erase_sequence {i : Nat} (h : l.Chain (front ++ i :: back)) :
    l.sequence.ids.erase (l.opId i) = front.map l.opId ++ back.map l.opId := by
  have hids : l.sequence.ids = front.map l.opId ++ l.opId i :: back.map l.opId := by
    simp [sequence, h.ids_eq]
  have hnodup : (front.map l.opId ++ l.opId i :: back.map l.opId).Nodup :=
    hids ▸ h.ids_nodup
  have hfront : l.opId i ∉ front.map l.opId := by grind
  rw [hids, List.erase_append_right _ hfront, List.erase_cons_head]

/-! ## What commands do -/

variable [ListOp α]

def Command.edit : Command α → Edit α (Reply α)
  | .create op => (fun id => .created [id]) <$> OpList.create op
  | .push op => (fun id => .created [id]) <$> OpList.push op
  | .pushNode id => (fun _ => .done) <$> OpList.pushNode id
  | .pushAll ops => .created <$> OpList.pushAll ops
  | .prepend ops => .created <$> OpList.prepend ops
  | .prependNodes ids => (fun _ => .done) <$> OpList.prependNodes ids
  | .insertBefore op target => (fun id => .created [id]) <$> OpList.insertBefore op target
  | .insertNodeBefore id target => (fun _ => .done) <$> OpList.insertNodeBefore id target
  | .insertNodesBefore ids target => (fun _ => .done) <$> OpList.insertNodesBefore ids target
  | .insertAfter op target => (fun id => .created [id]) <$> OpList.insertAfter op target
  | .insertNodeAfter id target => (fun _ => .done) <$> OpList.insertNodeAfter id target
  | .replace old op => (fun id => .created [id]) <$> OpList.replace old op
  | .replaceNode old new => (fun _ => .done) <$> OpList.replaceNode old new
  | .replaceWithMany old ids => (fun _ => .done) <$> OpList.replaceWithMany old ids
  | .remove id => (fun _ => .done) <$> OpList.remove id
  | .take id => .taken <$> OpList.take id
  | .write id op => (fun _ => .done) <$> OpList.write id op

def Sequence.empty (id : ListId) (arena : Nat) : Sequence α :=
  { id, arena, ops := [ListOp.listEnd, ListOp.listEnd], ids := [] }

/-- What a command does to a sequence, and its answer. -/
def Sequence.step (q : Sequence α) : Command α → Reply α × Sequence α
  | .create op => (.created (q.fresh 1), q.create [op])
  | .push op => (.created (q.fresh 1), { q.create [op] with ids := q.ids ++ q.fresh 1 })
  | .pushNode id => (.done, { q with ids := q.ids ++ [id] })
  | .pushAll ops =>
      (.created (q.fresh ops.length),
        { q.create ops with ids := q.ids ++ q.fresh ops.length })
  | .prepend ops =>
      (.created (q.fresh ops.length),
        { q.create ops with ids := q.fresh ops.length ++ q.ids })
  | .prependNodes ids => (.done, { q with ids := ids ++ q.ids })
  | .insertBefore op target =>
      (.created (q.fresh 1), (q.create [op]).insertBefore (q.fresh 1) target)
  | .insertNodeBefore id target => (.done, q.insertBefore [id] target)
  | .insertNodesBefore ids target => (.done, q.insertBefore ids target)
  | .insertAfter op target =>
      (.created (q.fresh 1), (q.create [op]).insertAfter (q.fresh 1) target)
  | .insertNodeAfter id target => (.done, q.insertAfter [id] target)
  | .replace old op => (.created (q.fresh 1), (q.create [op]).replaceBy (q.fresh 1) old)
  | .replaceNode old new => (.done, q.replaceBy [new] old)
  | .replaceWithMany old ids => (.done, q.replaceBy ids old)
  | .remove id => (.done, { q with ids := q.ids.erase id })
  | .take id => (.taken (q.ops.getD id.index ListOp.listEnd), q.set id ListOp.listEnd)
  | .write id op => (.done, q.set id op)

def Sequence.run : List (Command α) → Sequence α → List (Reply α) × Sequence α
  | [], q => ([], q)
  | command :: commands, q =>
      let (reply, q) := q.step command
      let (replies, q) := run commands q
      (reply :: replies, q)

/-! ## One operation

Each lemma relates an accepted operation on a linked list to its counterpart on the sequence. -/

/-- The list is linked and stands for the sequence `q`. -/
def StandsFor (l : OpList α) (q : Sequence α) : Prop :=
  l.Linked ∧ l.sequence = q

variable {ids : List OpId} {new old : OpId} {u : Unit}

omit [ListOp α] in
theorem SameArena.standsFor (h : SameArena l l') (hl' : l'.Chain is) :
    l'.StandsFor { l.sequence with ids := is.map l.opId } :=
  ⟨⟨is, hl'⟩, h.sequence_eq hl'⟩

omit [ListOp α] in
theorem map_opId_index (h : ∀ id ∈ ids, l.holds id = true) :
    (ids.map OpId.index).map l.opId = ids := by
  rw [List.map_map]
  have hid : ∀ id ∈ ids, (l.opId ∘ OpId.index) id = id := fun id hmem =>
    (eq_opId_of_holds (h id hmem)).symm
  rw [List.map_congr_left hid, List.map_id']

theorem Linked.insertNodesBefore (h : l.Linked)
    (hyields : Yields (insertNodesBefore ids target) l u l') :
    l'.StandsFor (l.sequence.insertBefore ids target) := by
  obtain ⟨is, hchain⟩ := h
  obtain ⟨hids, hsame, front, back, hcut, htarget, hl'⟩ := hchain.of_insertNodesBefore hyields
  subst hcut htarget
  have hrun := map_opId_index fun id hid => (hids.each id hid).1
  rw [hchain.insertBefore_sequence]
  simpa [hrun] using hsame.standsFor hl'

theorem Linked.insertNodeAfter (h : l.Linked)
    (hyields : Yields (insertNodeAfter id target) l u l') :
    l'.StandsFor (l.sequence.insertAfter [id] target) := by
  obtain ⟨is, hchain⟩ := h
  obtain ⟨hids, hsame, front, back, hcut, htarget, hl'⟩ := hchain.of_insertNodeAfter hyields
  subst hcut htarget
  have hid := eq_opId_of_holds (insertable_singleton.1 hids).1
  rw [hchain.insertAfter_sequence]
  simpa [← hid] using hsame.standsFor hl'

theorem Linked.replaceNode (h : l.Linked) (hyields : Yields (replaceNode old new) l u l') :
    l'.StandsFor (l.sequence.replaceBy [new] old) := by
  obtain ⟨is, hchain⟩ := h
  obtain ⟨hids, hsame, front, back, hcut, hold, hl'⟩ := hchain.of_replaceNode hyields
  subst hcut
  have hnew := eq_opId_of_holds (insertable_singleton.1 hids).1
  rw [hold, hchain.replaceBy_sequence]
  simpa [← hnew] using hsame.standsFor hl'

theorem Linked.remove (h : l.Linked) (hyields : Yields (remove id) l u l') :
    l'.StandsFor { l.sequence with ids := l.sequence.ids.erase id } := by
  obtain ⟨is, hchain⟩ := h
  obtain ⟨hsame, front, back, hcut, hid, hl'⟩ := hchain.of_remove hyields
  subst hcut
  rw [hid, hchain.erase_sequence]
  simpa using hsame.standsFor hl'

theorem Linked.replaceWithMany (h : l.Linked) (hyields : Yields (replaceWithMany old ids) l u l') :
    l'.StandsFor (l.sequence.replaceBy ids old) := by
  obtain ⟨is, hchain⟩ := h
  by_cases hne : ids = []
  · subst hne
    obtain ⟨hsame, front, back, hcut, hold, hl'⟩ := hchain.of_remove hyields
    subst hcut
    rw [hold, hchain.replaceBy_sequence]
    simpa using hsame.standsFor hl'
  · obtain ⟨hids, hsame, front, back, hcut, hold, hl'⟩ :=
      hchain.of_replaceWithMany hne hyields
    subst hcut
    have hrun := map_opId_index fun id hid => (hids.each id hid).1
    rw [hold, hchain.replaceBy_sequence]
    simpa [hrun] using hsame.standsFor hl'

theorem Linked.pushNodes (h : l.Linked)
    (hyields : Yields (OpList.insertNodesBefore ids l.tail) l u l') :
    l'.StandsFor { l.sequence with ids := l.sequence.ids ++ ids } := by
  have hstands := h.insertNodesBefore hyields
  obtain ⟨is, hchain⟩ := h
  have hend : l.Chain (is ++ []) := by simpa using hchain
  rw [tail, show l.opId tailIndex = l.opId (([] : List Nat).headD tailIndex) from rfl,
    hend.insertBefore_sequence] at hstands
  simpa [sequence, hchain.ids_eq] using hstands

theorem Linked.prependNodes (h : l.Linked) (hyields : Yields (prependNodes ids) l u l') :
    l'.StandsFor { l.sequence with ids := ids ++ l.sequence.ids } := by
  by_cases hne : ids = []
  · subst hne
    simp only [OpList.prependNodes, List.isEmpty_nil, if_true, yields_pure] at hyields
    rw [← hyields.2]
    exact ⟨h, rfl⟩
  · have hempty : ids.isEmpty = false := by simpa using hne
    simp only [OpList.prependNodes, hempty, Bool.false_eq_true, if_false, yields_bind,
      yields_edit_get] at hyields
    obtain ⟨_, _, ⟨rfl, rfl⟩, hyields⟩ := hyields
    have hstands := h.insertNodesBefore hyields
    obtain ⟨is, hchain⟩ := h
    have hstart : l.Chain ([] ++ is) := by simpa using hchain
    have hfirst := hstart.next?_getLastD
    rw [List.getLastD_nil] at hfirst
    rw [hfirst, Option.getD_some, hstart.insertBefore_sequence] at hstands
    simpa [sequence, hchain.ids_eq] using hstands

theorem Linked.mapM_create (h : l.Linked) {ops : List α}
    (hyields : Yields (ops.mapM create) l ids l') :
    ids = l.sequence.fresh ops.length ∧ l'.StandsFor (l.sequence.create ops) := by
  obtain ⟨is, hchain⟩ := h
  obtain ⟨_, hids, rfl⟩ := yields_mapM_create.1 hyields
  rw [fresh_sequence]
  exact ⟨hids.symm, ⟨is, hchain.allocAll ops⟩, hchain.sequence_allocAll ops⟩

theorem Linked.create (h : l.Linked) {op : α} (hyields : Yields (create op) l id l') :
    [id] = l.sequence.fresh 1 ∧ l'.StandsFor (l.sequence.create [op]) := by
  have hmany : Yields ([op].mapM OpList.create) l [id] l' := by
    simp only [List.mapM_cons, List.mapM_nil, yields_bind, yields_pure]
    exact ⟨id, l', hyields, [], l', ⟨rfl, rfl⟩, rfl, rfl⟩
  exact h.mapM_create hmany

omit [ListOp α] in
theorem Linked.setOp (h : l.Linked) (id : OpId) (op : α) :
    (l.setOp id.index op).StandsFor (l.sequence.set id op) := by
  obtain ⟨is, hchain⟩ := h
  have hids : (l.setOp id.index op).ids = l.ids := by
    rw [(hchain.setOp id.index op).ids_eq, hchain.ids_eq]
    rfl
  have hops : (l.setOp id.index op).sequence.ops = l.sequence.ops.set id.index op := by
    apply List.ext_getElem?
    intro j
    have hlen : l.sequence.ops.length = l.nodes.size := by simp [sequence]
    rw [getElem?_sequence_ops, List.getElem?_set, getElem?_sequence_ops, hlen]
    by_cases hid : id.index < l.nodes.size
    · grind [op?_setOp hid op j]
    · grind [OpList.setOp, op?]
  refine ⟨⟨is, hchain.setOp id.index op⟩, ?_⟩
  simp only [sequence, Sequence.set] at hops ⊢
  rw [hops, hids]
  rfl

theorem Linked.take (h : l.Linked) {op : α} (hyields : Yields (take id) l op l') :
    op = l.sequence.ops.getD id.index ListOp.listEnd ∧
      l'.StandsFor (l.sequence.set id ListOp.listEnd) := by
  simp only [OpList.take, yields_bind, yields_indexOf, yields_checkNotEnd,
    yields_checkUnowned, yields_edit_get, yields_edit_set, yields_pure] at hyields
  obtain ⟨_, _, ⟨_, rfl, rfl⟩, _, _, ⟨_, rfl⟩, _, _, ⟨_, rfl⟩, _, _, ⟨rfl, rfl⟩, _, _, hset,
    hop, rfl⟩ := hyields
  refine ⟨?_, hset ▸ h.setOp id ListOp.listEnd⟩
  rw [← hop, List.getD_eq_getElem?_getD, getElem?_sequence_ops]

omit [ListOp α] in
theorem Linked.write (h : l.Linked) {op : α} (hyields : Yields (write id op) l u l') :
    l'.StandsFor (l.sequence.set id op) := by
  simp only [OpList.write, yields_bind, yields_indexOf, yields_edit_modify] at hyields
  obtain ⟨_, _, ⟨_, rfl, rfl⟩, hset⟩ := hyields
  exact hset ▸ h.setOp id op

theorem Linked.step (h : l.Linked) {command : Command α} {reply : Reply α}
    (hyields : Yields command.edit l reply l') :
    l'.Linked ∧ l.sequence.step command = (reply, l'.sequence) := by
  cases command with
  | create op =>
    obtain ⟨id, hcreate, rfl⟩ := yields_map.1 hyields
    obtain ⟨hid, hl', hq⟩ := h.create hcreate
    exact ⟨hl', by rw [Sequence.step, hid, hq]⟩
  | push op =>
    obtain ⟨id, hpush, rfl⟩ := yields_map.1 hyields
    simp only [OpList.push, OpList.pushNode, yields_bind, yields_pure, yields_edit_get] at hpush
    obtain ⟨_, l₁, hcreate, _, _, ⟨_, _, ⟨rfl, rfl⟩, hlink⟩, rfl, rfl⟩ := hpush
    obtain ⟨hid, hl₁, hq₁⟩ := h.create hcreate
    obtain ⟨hl', hq⟩ := hl₁.pushNodes hlink
    exact ⟨hl', by rw [Sequence.step, hq, hq₁, hid]; rfl⟩
  | pushNode id =>
    obtain ⟨_, hpush, rfl⟩ := yields_map.1 hyields
    simp only [OpList.pushNode, yields_bind, yields_edit_get] at hpush
    obtain ⟨_, _, ⟨rfl, rfl⟩, hlink⟩ := hpush
    obtain ⟨hl', hq⟩ := h.pushNodes hlink
    exact ⟨hl', by rw [Sequence.step, hq]⟩
  | pushAll ops =>
    obtain ⟨ids, hpush, rfl⟩ := yields_map.1 hyields
    simp only [OpList.pushAll, yields_bind, yields_pure, yields_edit_get] at hpush
    obtain ⟨_, l₁, hcreate, _, _, ⟨rfl, rfl⟩, _, _, hlink, rfl, rfl⟩ := hpush
    obtain ⟨hids, hl₁, hq₁⟩ := h.mapM_create hcreate
    obtain ⟨hl', hq⟩ := hl₁.pushNodes hlink
    exact ⟨hl', by rw [Sequence.step, hq, hq₁, hids]; rfl⟩
  | prepend ops =>
    obtain ⟨ids, hprepend, rfl⟩ := yields_map.1 hyields
    simp only [OpList.prepend, yields_bind, yields_pure] at hprepend
    obtain ⟨_, l₁, hcreate, _, _, hlink, rfl, rfl⟩ := hprepend
    obtain ⟨hids, hl₁, hq₁⟩ := h.mapM_create hcreate
    obtain ⟨hl', hq⟩ := hl₁.prependNodes hlink
    exact ⟨hl', by rw [Sequence.step, hq, hq₁, hids]; rfl⟩
  | prependNodes ids =>
    obtain ⟨_, hlink, rfl⟩ := yields_map.1 hyields
    obtain ⟨hl', hq⟩ := h.prependNodes hlink
    exact ⟨hl', by rw [Sequence.step, hq]⟩
  | insertBefore op target =>
    obtain ⟨id, hinsert, rfl⟩ := yields_map.1 hyields
    simp only [OpList.insertBefore, yields_bind, yields_pure] at hinsert
    obtain ⟨_, l₁, hcreate, _, _, hlink, rfl, rfl⟩ := hinsert
    obtain ⟨hid, hl₁, hq₁⟩ := h.create hcreate
    obtain ⟨hl', hq⟩ := hl₁.insertNodesBefore hlink
    exact ⟨hl', by rw [Sequence.step, hq, hq₁, hid]⟩
  | insertNodeBefore id target =>
    obtain ⟨_, hlink, rfl⟩ := yields_map.1 hyields
    obtain ⟨hl', hq⟩ := h.insertNodesBefore hlink
    exact ⟨hl', by rw [Sequence.step, hq]⟩
  | insertNodesBefore ids target =>
    obtain ⟨_, hlink, rfl⟩ := yields_map.1 hyields
    obtain ⟨hl', hq⟩ := h.insertNodesBefore hlink
    exact ⟨hl', by rw [Sequence.step, hq]⟩
  | insertAfter op target =>
    obtain ⟨id, hinsert, rfl⟩ := yields_map.1 hyields
    simp only [OpList.insertAfter, yields_bind, yields_pure] at hinsert
    obtain ⟨_, l₁, hcreate, _, _, hlink, rfl, rfl⟩ := hinsert
    obtain ⟨hid, hl₁, hq₁⟩ := h.create hcreate
    obtain ⟨hl', hq⟩ := hl₁.insertNodeAfter hlink
    exact ⟨hl', by rw [Sequence.step, hq, hq₁, hid]⟩
  | insertNodeAfter id target =>
    obtain ⟨_, hlink, rfl⟩ := yields_map.1 hyields
    obtain ⟨hl', hq⟩ := h.insertNodeAfter hlink
    exact ⟨hl', by rw [Sequence.step, hq]⟩
  | replace old op =>
    obtain ⟨id, hreplace, rfl⟩ := yields_map.1 hyields
    simp only [OpList.replace, yields_bind, yields_pure] at hreplace
    obtain ⟨_, l₁, hcreate, _, _, hlink, rfl, rfl⟩ := hreplace
    obtain ⟨hid, hl₁, hq₁⟩ := h.create hcreate
    obtain ⟨hl', hq⟩ := hl₁.replaceNode hlink
    exact ⟨hl', by rw [Sequence.step, hq, hq₁, hid]⟩
  | replaceNode old new =>
    obtain ⟨_, hlink, rfl⟩ := yields_map.1 hyields
    obtain ⟨hl', hq⟩ := h.replaceNode hlink
    exact ⟨hl', by rw [Sequence.step, hq]⟩
  | replaceWithMany old ids =>
    obtain ⟨_, hlink, rfl⟩ := yields_map.1 hyields
    obtain ⟨hl', hq⟩ := h.replaceWithMany hlink
    exact ⟨hl', by rw [Sequence.step, hq]⟩
  | remove id =>
    obtain ⟨_, hremove, rfl⟩ := yields_map.1 hyields
    obtain ⟨hl', hq⟩ := h.remove hremove
    exact ⟨hl', by rw [Sequence.step, hq]⟩
  | take id =>
    obtain ⟨op, htake, rfl⟩ := yields_map.1 hyields
    obtain ⟨hop, hl', hq⟩ := h.take htake
    exact ⟨hl', by rw [Sequence.step, hq, hop]⟩
  | write id op =>
    obtain ⟨_, hwrite, rfl⟩ := yields_map.1 hyields
    obtain ⟨hl', hq⟩ := h.write hwrite
    exact ⟨hl', by rw [Sequence.step, hq]⟩

theorem Linked.run (h : l.Linked) {commands : List (Command α)} {replies : List (Reply α)}
    (hyields : Yields (commands.mapM Command.edit) l replies l') :
    l'.Linked ∧ Sequence.run commands l.sequence = (replies, l'.sequence) := by
  have hthreads := yields_mapM.1 hyields
  clear hyields
  induction hthreads with
  | nil => exact ⟨h, rfl⟩
  | cons hstep _ ih =>
    obtain ⟨hlinked, hq⟩ := h.step hstep
    obtain ⟨hl', hrun⟩ := ih hlinked
    exact ⟨hl', by simp only [Sequence.run, hq, hrun]⟩

/-! ## Readings -/

def Sequence.op? (q : Sequence α) (id : OpId) : Option α :=
  if id.list = q.id ∧ id.arena = q.arena then q.ops[id.index]? else none

/-- Everything that one can read off the list is read off the sequence. -/
structure Reads (l : OpList α) (q : Sequence α) : Prop where
  get : ∀ id, l.get? id = q.op? id
  ids : l.ids = q.ids
  nodup : q.ids.Nodup
  entries : l.entries.map (fun entry => (entry.1, some entry.2)) = q.ids.map fun id => (id, q.op? id)
  toList : l.toList.map some = q.ids.map q.op?
  reversed : l.toListRev = l.toList.reverse
  first : l.first? = q.ids.head?
  last : l.last? = q.ids.getLast?
  len : l.len = q.ids.length
  /-- A linked operation has its neighbours in the sequence, or the sentinels at its ends. -/
  linked : ∀ front id back, q.ids = front ++ id :: back →
    (prevOf id).exec l = .ok (some (front.getLastD l.head), l) ∧
    (nextOf id).exec l = .ok (some (back.headD l.tail), l) ∧
    (ownerOf id).exec l = .ok (some l.id, l)
  head : (prevOf l.head).exec l = .ok (none, l) ∧
    (nextOf l.head).exec l = .ok (some (q.ids.headD l.tail), l) ∧
    (ownerOf l.head).exec l = .ok (some l.id, l)
  tail : (prevOf l.tail).exec l = .ok (some (q.ids.getLastD l.head), l) ∧
    (nextOf l.tail).exec l = .ok (none, l) ∧
    (ownerOf l.tail).exec l = .ok (some l.id, l)
  detached : ∀ id, l.holds id = true → id ∉ q.ids → id ≠ l.head → id ≠ l.tail →
    (prevOf id).exec l = .ok (none, l) ∧
    (nextOf id).exec l = .ok (none, l) ∧
    (ownerOf id).exec l = .ok (none, l)
  /-- A visit in place meets the operations in the order of the sequence and keeps the handles. -/
  visit : ∀ {m : Type → Type} [Monad m] [LawfulMonad m] (f : α → m α),
    (fun l' : OpList α => (l'.ids, l'.toList)) <$> l.mapM f = (q.ids, ·) <$> l.toList.mapM f

omit [ListOp α] in
theorem exec_prevOf (h : l.holds id = true) :
    (prevOf id).exec l = .ok ((l.prev? id.index).map l.opId, l) := by
  simp only [exec_eq_ok_iff, prevOf, yields_bind, yields_indexOf, yields_edit_get, yields_pure]
  exact ⟨_, _, ⟨h, rfl, rfl⟩, _, _, ⟨rfl, rfl⟩, rfl, rfl⟩

omit [ListOp α] in
theorem exec_nextOf (h : l.holds id = true) :
    (nextOf id).exec l = .ok ((l.next? id.index).map l.opId, l) := by
  simp only [exec_eq_ok_iff, nextOf, yields_bind, yields_indexOf, yields_edit_get, yields_pure]
  exact ⟨_, _, ⟨h, rfl, rfl⟩, _, _, ⟨rfl, rfl⟩, rfl, rfl⟩

omit [ListOp α] in
theorem exec_ownerOf (h : l.holds id = true) :
    (ownerOf id).exec l = .ok (l.owner? id.index, l) := by
  simp only [exec_eq_ok_iff, ownerOf, yields_bind, yields_indexOf, yields_edit_get, yields_pure]
  exact ⟨_, _, ⟨h, rfl, rfl⟩, _, _, ⟨rfl, rfl⟩, rfl, rfl⟩

omit [ListOp α] in
theorem opId_headD (back : List Nat) :
    l.opId (back.headD tailIndex) = (back.map l.opId).headD l.tail := by
  cases back <;> rfl

omit [ListOp α] in
theorem opId_getLastD (front : List Nat) :
    l.opId (front.getLastD headIndex) = (front.map l.opId).getLastD l.head := by
  rcases List.eq_nil_or_concat front with rfl | ⟨front, i, rfl⟩
  · rfl
  · simp [List.concat_eq_append]

omit [ListOp α] in
theorem Chain.exec_cut (h : l.Chain (front ++ back)) :
    (prevOf (l.opId (back.headD tailIndex))).exec l =
        .ok (some ((front.map l.opId).getLastD l.head), l) ∧
      (nextOf (l.opId (front.getLastD headIndex))).exec l =
        .ok (some ((back.map l.opId).headD l.tail), l) := by
  rw [exec_prevOf (holds_opId _ _), exec_nextOf (holds_opId _ _), opId_index, opId_index,
    h.prev?_headD, h.next?_getLastD, Option.map_some, Option.map_some, opId_headD,
    opId_getLastD]
  exact ⟨rfl, rfl⟩

omit [ListOp α] in
theorem Chain.exec_ownerOf {i : Nat} (h : l.Chain is) (hi : i ∈ line is) :
    (ownerOf (l.opId i)).exec l = .ok (some l.id, l) := by
  rw [OpList.exec_ownerOf (holds_opId _ _), opId_index, h.owned_iff.2 hi]

theorem map_some_filterMap {β γ : Type} {f : β → Option γ} {bs : List β}
    (h : ∀ b ∈ bs, ∃ c, f b = some c) : (bs.filterMap f).map some = bs.map f := by
  induction bs with
  | nil => rfl
  | cons b bs ih =>
    obtain ⟨c, hc⟩ := h b (by simp)
    have hrest := ih fun b hb => h b (by simp [hb])
    simp [hc, hrest]

omit [ListOp α] in
theorem Sequence.op?_opId (l : OpList α) (i : Nat) : l.sequence.op? (l.opId i) = l.op? i := by
  simp [Sequence.op?, sequence, opId, OpList.op?]

omit [ListOp α] in
theorem Chain.toListRev_eq (h : l.Chain is) : l.toListRev = l.toList.reverse := by
  rw [toListRev, toList, h.indices_eq, h.indicesRev_eq, List.filterMap_reverse]

omit [ListOp α] in
theorem Chain.first?_eq (h : l.Chain is) : l.first? = l.ids.head? := by
  have hstart : l.Chain ([] ++ is) := by simpa using h
  have hnext := hstart.next?_getLastD
  rw [List.getLastD_nil] at hnext
  rw [first?, hnext, h.ids_eq]
  have htail := h.tailIndex_notMem
  cases is with
  | nil => rfl
  | cons i is =>
    have hne : i ≠ tailIndex := by grind
    simp [hne]

omit [ListOp α] in
theorem Chain.last?_eq (h : l.Chain is) : l.last? = l.ids.getLast? := by
  have hend : l.Chain (is ++ []) := by simpa using h
  have hprev := hend.prev?_headD
  rw [List.headD_nil] at hprev
  rw [last?, hprev, h.ids_eq]
  have hhead := h.headIndex_notMem
  rcases List.eq_nil_or_concat is with rfl | ⟨is, i, rfl⟩
  · rfl
  · have hne : i ≠ headIndex := by grind
    simp [hne]

omit [ListOp α] in
theorem Chain.ids_toList_mapM (h : l.Chain is) {m : Type → Type} [Monad m] [LawfulMonad m]
    (f : α → m α) :
    (fun l' : OpList α => (l'.ids, l'.toList)) <$> l.mapM f = (l.ids, ·) <$> l.toList.mapM f := by
  have hids : ∀ ops, (l.withOps ops).ids = l.ids := by
    intro ops
    rw [(h.withOps ops).ids_eq, h.ids_eq]
    simp [OpList.withOps, opId, overwrite_id, overwrite_arena]
  rw [h.mapM_eq]
  simp only [Functor.map_map, hids, h.toList_withOps]
  conv_rhs => rw [← overlay_map_mapM f l.toList]
  simp only [Functor.map_map]

omit [ListOp α] in
theorem Chain.prev?_headIndex (h : l.Chain is) : l.prev? headIndex = none := by
  have hline : (line is).reverse = (is ++ [tailIndex]).reverse ++ [headIndex] := by simp [line]
  have hhead : headIndex ∉ (is ++ [tailIndex]).reverse := by
    simpa using h.headIndex_notMem
  rw [h.prev, hline, nextIn_append_cons hhead, List.head?_nil]

omit [ListOp α] in
theorem Chain.next?_tailIndex (h : l.Chain is) : l.next? tailIndex = none := by
  have hline : line is = (headIndex :: is) ++ [tailIndex] := by simp [line]
  have htail : tailIndex ∉ headIndex :: is := by
    simpa using h.tailIndex_notMem
  rw [h.next, hline, nextIn_append_cons htail, List.head?_nil]

omit [ListOp α] in
theorem Linked.reads (h : l.Linked) : l.Reads l.sequence := by
  obtain ⟨is, hchain⟩ := h
  have hids : l.sequence.ids = is.map l.opId := hchain.ids_eq
  have hsome : ∀ i ∈ is, ∃ op, l.op? i = some op := fun i hi => hchain.exists_op? hi
  have hstart : l.Chain ([] ++ is) := by simpa using hchain
  have hend : l.Chain (is ++ []) := by simpa using hchain
  constructor
  case get =>
    intro id
    simp [get?, Sequence.op?, holds, sequence, OpList.op?]
  case ids => rfl
  case nodup => exact hchain.ids_nodup
  case entries =>
    have hentry : ∀ i ∈ is,
        ((l.op? i).map (l.opId i, ·)).map (fun entry => (entry.1, some entry.2)) =
          some (l.opId i, l.sequence.op? (l.opId i)) := by
      intro i hi
      obtain ⟨op, hop⟩ := hsome i hi
      simp [Sequence.op?_opId, hop]
    rw [OpList.entries, hchain.indices_eq, List.map_filterMap, List.filterMap_congr hentry, hids,
      List.map_map]
    exact congrFun List.filterMap_eq_map' is
  case toList =>
    rw [OpList.toList, hchain.indices_eq, map_some_filterMap hsome, hids, List.map_map]
    exact List.map_congr_left fun i _ => (Sequence.op?_opId l i).symm
  case reversed => exact hchain.toListRev_eq
  case first => exact hchain.first?_eq
  case last => exact hchain.last?_eq
  case len => rw [hids, List.length_map, hchain.len]
  case linked =>
    intro front id back hcut
    obtain ⟨is₁, is₂, rfl, rfl, hback⟩ := List.map_eq_append_iff.1 (hids ▸ hcut)
    obtain ⟨i, is₃, rfl, rfl, rfl⟩ := List.map_eq_cons_iff.1 hback
    have hnext : l.Chain ((is₁ ++ [i]) ++ is₃) := by simpa using hchain
    have hlast : (is₁ ++ [i]).getLastD headIndex = i := by simp
    refine ⟨hchain.exec_cut.1, ?_, hchain.exec_ownerOf (Chain.mem_line.2 (by simp))⟩
    simpa [hlast] using hnext.exec_cut.2
  case head =>
    have hnext := hstart.exec_cut.2
    rw [List.getLastD_nil, ← hids] at hnext
    refine ⟨?_, hnext, hchain.exec_ownerOf (by simp [line])⟩
    rw [head, exec_prevOf (holds_opId _ _), opId_index, hchain.prev?_headIndex, Option.map_none]
  case tail =>
    have hprev := hend.exec_cut.1
    rw [List.headD_nil, ← hids] at hprev
    refine ⟨hprev, ?_, hchain.exec_ownerOf (by simp [line])⟩
    rw [tail, exec_nextOf (holds_opId _ _), opId_index, hchain.next?_tailIndex, Option.map_none]
  case detached =>
    intro id hid hout hhead htail
    have hindex := eq_opId_of_holds hid
    have hmem : id.index ∉ line is := by
      intro hmem
      rcases Chain.mem_line.1 hmem with hi | hi | hi
      · exact hhead (by rw [hindex, hi]; rfl)
      · exact hout (by rw [hids, hindex]; exact List.mem_map_of_mem hi)
      · exact htail (by rw [hindex, hi]; rfl)
    have hnext := nextIn_of_not_mem hmem
    have hrev : id.index ∉ (line is).reverse := by simpa using hmem
    have hprev := nextIn_of_not_mem hrev
    rw [exec_prevOf hid, exec_nextOf hid, OpList.exec_ownerOf hid, hchain.prev, hchain.next, hprev,
      hnext, hchain.unowned_iff.2 hmem]
    exact ⟨rfl, rfl, rfl⟩
  case visit => exact hchain.ids_toList_mapM

theorem Linked.empty (id : ListId) (arena : Nat) : (OpList.empty id arena : OpList α).Linked :=
  ⟨[], chain_empty id arena⟩

theorem sequence_empty (id : ListId) (arena : Nat) :
    (empty id arena : OpList α).sequence = Sequence.empty id arena := by
  have hids := (chain_empty (α := α) id arena).ids_eq
  rw [sequence, hids]
  rfl

/-- Every run of accepted operations on a list is the run of their plain counterparts on a sequence:
it gives the same answers and leaves a consistent list from which the sequence is read off. -/
theorem run_refines_sequence {id : ListId} {arena : Nat} {commands : List (Command α)}
    {replies : List (Reply α)} {l : OpList α}
    (h : (commands.mapM Command.edit).exec (empty id arena) = .ok (replies, l)) :
    ∃ q, Sequence.run commands (Sequence.empty id arena) = (replies, q) ∧
      l.assertConsistent = .ok () ∧ l.Reads q := by
  obtain ⟨hlinked, hrun⟩ := (Linked.empty id arena).run (exec_eq_ok_iff.1 h)
  rw [sequence_empty] at hrun
  have hconsistent : l.assertConsistent = .ok () := by
    obtain ⟨is, hchain⟩ := hlinked
    exact hchain.assertConsistent_eq_ok
  exact ⟨l.sequence, hrun, hconsistent, hlinked.reads⟩

/-- A run that replaces an operation by a run with itself in it, and links a removed operation at
another place. -/
def relinking : List (Command CreateOp) :=
  let id (index : Nat) : OpId := { list := ⟨0⟩, arena := 0, index }
  [.pushAll [.icuEnd ⟨2⟩, .icuEnd ⟨3⟩, .icuEnd ⟨4⟩], .create (.icuEnd ⟨5⟩),
    .replaceWithMany (id 3) [id 5, id 3], .remove (id 2), .insertNodeAfter (id 2) (id 4),
    .remove (id 5), .take (id 5), .prepend [.icuEnd ⟨6⟩]]

theorem run_refines_sequence_relinking :
    ∃ replies l,
      (relinking.mapM Command.edit).exec (empty ⟨0⟩ 0) = .ok (replies, l) ∧
      l.ids.map OpId.index = [6, 3, 4, 2] ∧
      ∃ q, Sequence.run relinking (Sequence.empty ⟨0⟩ 0) = (replies, q) ∧
        l.assertConsistent = .ok () ∧ l.Reads q :=
  ⟨_, _, rfl, rfl, run_refines_sequence rfl⟩

end TemplateLowering.OpList
