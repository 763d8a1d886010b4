import TemplateLowering.Proofs.OpList.Chain
import TemplateLowering.Proofs.Outcome

/-!
# Edits of a chain

Each structural operation is described on a list whose chain is known.  The first half says exactly
when the checks of an operation accept; the second half says where the nodes end up.  An operation
that links nodes at a cut of the chain puts them there, in order, and changes no operation of the
arena.
-/

namespace TemplateLowering.OpList

variable {α : Type} {l l' : OpList α} {i p n : Nat} {id : OpId}
variable {ids : List OpId} {is js : List Nat}

/-! ## Accepted checks -/

theorem yields_indexOf :
    Yields (indexOf id : Edit α Nat) l i l' ↔ l.holds id = true ∧ id.index = i ∧ l = l' := by
  simp only [indexOf, yields_bind, yields_edit_get, yields_ite, not_yields_throw, yields_pure]
  simp only [holds]
  grind

theorem yields_checkNotEnd [ListOp α] {u : Unit} :
    Yields (checkNotEnd i : Edit α Unit) l u l' ↔ l.isEnd i = false ∧ l = l' := by
  simp only [checkNotEnd, yields_bind, yields_edit_get, yields_ite, not_yields_throw,
    yields_pure]
  grind

theorem yields_reading {β : Type} {k : OpList α → Edit α β} {b : β} :
    Yields (get >>= k) l b l' ↔ Yields (k l) l b l' := by
  rw [yields_bind]
  constructor
  · rintro ⟨_, _, hget, h⟩
    obtain ⟨rfl, rfl⟩ := yields_edit_get.1 hget
    exact h
  · intro h
    exact ⟨l, l, yields_edit_get.2 ⟨rfl, rfl⟩, h⟩

theorem yields_checkUnowned {u : Unit} :
    Yields (checkUnowned i : Edit α Unit) l u l' ↔ l.owner? i = none ∧ l = l' := by
  rw [checkUnowned, yields_reading]
  cases l.owner? i with
  | none => simp [yields_pure]
  | some owner => simp [not_yields_throw]

theorem yields_checkOwned {u : Unit} :
    Yields (checkOwned i : Edit α Unit) l u l' ↔ l.owner? i = some l.id ∧ l = l' := by
  rw [checkOwned, yields_reading]
  cases l.owner? i with
  | none => simp [not_yields_throw]
  | some owner => simp [yields_ite, not_yields_throw, yields_pure]

theorem yields_before : Yields (before i : Edit α Nat) l p l' ↔ l.prev? i = some p ∧ l = l' := by
  rw [before, yields_reading]
  cases l.prev? i with
  | none => simp [not_yields_throw]
  | some prev => simp [yields_pure]

theorem yields_after : Yields (after i : Edit α Nat) l n l' ↔ l.next? i = some n ∧ l = l' := by
  rw [after, yields_reading]
  cases l.next? i with
  | none => simp [not_yields_throw]
  | some next => simp [yields_pure]

theorem yields_unlink {result : Nat × Nat} :
    Yields (unlink i : Edit α (Nat × Nat)) l result l' ↔
      l.prev? i = some result.1 ∧ l.next? i = some result.2 ∧
        l.unlinkBetween i result.1 result.2 = l' := by
  simp only [unlink, yields_bind, yields_before, yields_after, yields_edit_modify, yields_pure]
  constructor
  · rintro ⟨p, _, ⟨hp, rfl⟩, n, _, ⟨hn, rfl⟩, _, _, rfl, rfl, rfl⟩
    exact ⟨hp, hn, rfl⟩
  · rintro ⟨hp, hn, rfl⟩
    exact ⟨result.1, l, ⟨hp, rfl⟩, result.2, l, ⟨hn, rfl⟩, (), _, rfl, rfl, rfl⟩

theorem yields_linkBefore {target : Nat} {u : Unit} :
    Yields (linkBefore target i : Edit α Unit) l u l' ↔
      ∃ p, l.prev? target = some p ∧ l.linkBetween i p target = l' := by
  simp only [linkBefore, yields_bind, yields_before, yields_edit_modify]
  constructor
  · rintro ⟨p, _, ⟨hp, rfl⟩, h⟩
    exact ⟨p, hp, h⟩
  · rintro ⟨p, hp, h⟩
    exact ⟨p, l, ⟨hp, rfl⟩, h⟩

theorem yields_create [ListOp α] {op : α} :
    Yields (create op : Edit α OpId) l id l' ↔
      ListOp.isListEnd op = false ∧ l.opId l.nodes.size = id ∧ l.alloc op = l' := by
  simp only [create, yields_ite, yields_bind, yields_edit_get, yields_edit_set, yields_pure,
    not_yields_throw]
  grind

theorem exec_eq_ok_iff {β : Type} {edit : Edit α β} {b : β} :
    edit.exec l = .ok (b, l') ↔ Yields edit l b l' := by
  have houtcome : outcome edit l = edit.exec l := by
    obtain ⟨result, t, hrun⟩ : ∃ result t, edit.run.run l = (result, t) := ⟨_, _, rfl⟩
    have hrun' : edit.run l = (result, t) := hrun
    cases result <;> simp only [outcome, Edit.exec, hrun, hrun']
  rw [Yields, houtcome]

/-! ## Accepted runs of handles -/

/-- A loop that collects the nodes of handles, when each round accepts a handle for a reason `P` of
its own and because its node is new. -/
theorem yields_collect {P : OpId → Prop} {collect : List Nat → OpId → Edit α (List Nat)}
    (hcollect : ∀ known id js l',
      Yields (collect known id) l js l' ↔
        (P id ∧ id.index ∉ known) ∧ known ++ [id.index] = js ∧ l = l') {known : List Nat}
    (hknown : known.Nodup) :
    Yields (ids.foldlM collect known) l js l' ↔
      ((∀ id ∈ ids, P id) ∧ (known ++ ids.map OpId.index).Nodup) ∧
        known ++ ids.map OpId.index = js ∧ l = l' := by
  induction ids generalizing known with
  | nil => simp [yields_pure, hknown]
  | cons id ids ih =>
      simp only [List.foldlM_cons, yields_bind, hcollect]
      constructor
      · rintro ⟨_, _, ⟨⟨hid, hnot⟩, rfl, rfl⟩, hrest⟩
        have hnodup : (known ++ [id.index]).Nodup := by
          grind
        obtain ⟨⟨hids, hall⟩, rfl, rfl⟩ := (ih hnodup).1 hrest
        refine ⟨⟨?_, by simpa using hall⟩, by simp, rfl⟩
        simpa only [List.mem_cons, forall_eq_or_imp] using ⟨hid, hids⟩
      · rintro ⟨⟨hids, hall⟩, rfl, rfl⟩
        simp only [List.mem_cons, forall_eq_or_imp] at hids
        have hall' : (known ++ [id.index] ++ ids.map OpId.index).Nodup := by
          simpa using hall
        have hnodup : (known ++ [id.index]).Nodup := hall'.of_append_left
        have hnot : id.index ∉ known := by
          grind
        exact ⟨known ++ [id.index], l, ⟨⟨hids.1, hnot⟩, rfl, rfl⟩,
          (ih hnodup).2 ⟨⟨hids.2, hall'⟩, by simp, rfl⟩⟩

/-! ## Linking at a cut -/

/-- Two lists with the same number and the same operations in their arenas. -/
structure SameArena (l l' : OpList α) : Prop where
  id : l'.id = l.id
  arena : l'.arena = l.arena
  size : l'.nodes.size = l.nodes.size
  op? : ∀ j, l'.op? j = l.op? j

namespace SameArena

theorem refl (l : OpList α) : SameArena l l :=
  ⟨rfl, rfl, rfl, fun _ => rfl⟩

theorem trans {l₁ l₂ l₃ : OpList α} (h : SameArena l₁ l₂) (h' : SameArena l₂ l₃) :
    SameArena l₁ l₃ :=
  ⟨h'.id.trans h.id, h'.arena.trans h.arena, h'.size.trans h.size,
    fun j => (h'.op? j).trans (h.op? j)⟩

theorem linkBetween (l : OpList α) (i p n : Nat) : SameArena l (l.linkBetween i p n) :=
  ⟨rfl, rfl, nodes_size_linkBetween, op?_linkBetween⟩

theorem unlinkBetween (l : OpList α) (i p n : Nat) : SameArena l (l.unlinkBetween i p n) :=
  ⟨rfl, rfl, nodes_size_unlinkBetween, op?_unlinkBetween⟩

theorem opId (h : SameArena l l') (i : Nat) : l'.opId i = l.opId i := by
  simp [OpList.opId, h.id, h.arena]

end SameArena

theorem eq_opId_of_holds (h : l.holds id = true) : id = l.opId id.index := by
  simp only [holds, Bool.and_eq_true, decide_eq_true_eq] at h
  rcases id with ⟨list, arena, index⟩
  simp only [opId] at h ⊢
  rw [h.1, h.2]

@[simp] theorem holds_opId (l : OpList α) (i : Nat) : l.holds (l.opId i) = true := by
  simp [holds, opId]

@[simp] theorem opId_index (l : OpList α) (i : Nat) : (l.opId i).index = i := rfl

namespace Chain

variable {is front back js : List Nat}

theorem exists_cut_before {t : Nat} (ht : t ∈ line is) (hne : t ≠ headIndex) :
    ∃ front back, is = front ++ back ∧ back.headD tailIndex = t := by
  rcases mem_line.1 ht with rfl | hmem | rfl
  · exact absurd rfl hne
  · obtain ⟨front, back, rfl⟩ := List.append_of_mem hmem
    exact ⟨front, t :: back, rfl, rfl⟩
  · exact ⟨is, [], by simp, rfl⟩

theorem exists_cut_after {t : Nat} (ht : t ∈ line is) (hne : t ≠ tailIndex) :
    ∃ front back, is = front ++ back ∧ front.getLastD headIndex = t := by
  rcases mem_line.1 ht with rfl | hmem | rfl
  · exact ⟨[], is, rfl, rfl⟩
  · obtain ⟨front, back, rfl⟩ := List.append_of_mem hmem
    exact ⟨front ++ [t], back, by simp, by simp⟩
  · exact absurd rfl hne

theorem headD_mem_line : back.headD tailIndex ∈ line (front ++ back) := by
  cases back <;> simp [line]

theorem getLastD_mem_line : front.getLastD headIndex ∈ line (front ++ back) := by
  rcases List.eq_nil_or_concat front with rfl | ⟨xs, x, rfl⟩ <;> simp [line]

theorem headD_ne_headIndex (h : l.Chain (front ++ back)) : back.headD tailIndex ≠ headIndex := by
  cases back with
  | nil => simp
  | cons i back =>
      rintro rfl
      exact h.headIndex_notMem (by simp)

theorem getLastD_ne_tailIndex (h : l.Chain (front ++ back)) :
    front.getLastD headIndex ≠ tailIndex := by
  rcases List.eq_nil_or_concat front with rfl | ⟨xs, x, rfl⟩
  · simp
  · intro heq
    have hx : x = tailIndex := by simpa using heq
    exact h.tailIndex_notMem (by simp [hx])

theorem owned_of_mem (h : l.Chain is) (hi : i ∈ is) : l.owner? i = some l.id :=
  h.owned_iff.2 (mem_line.2 (.inr (.inl hi)))

theorem yields_unlink_iff (h : l.Chain (front ++ i :: back)) {result : Nat × Nat} :
    Yields (OpList.unlink i : Edit α (Nat × Nat)) l result l' ↔
      result = (front.getLastD headIndex, back.headD tailIndex) ∧
        l' = l.unlinkBetween i (front.getLastD headIndex) (back.headD tailIndex) := by
  have hprev : l.prev? i = some (front.getLastD headIndex) := h.prev?_headD
  have hnext : l.next? i = some (back.headD tailIndex) := by
    have hcut : l.Chain ((front ++ [i]) ++ back) := by simpa using h
    simpa using hcut.next?_getLastD
  rw [yields_unlink, hprev, hnext]
  simp only [Option.some.injEq]
  constructor
  · rintro ⟨hp, hn, rfl⟩
    exact ⟨by rw [hp, hn], by rw [hp, hn]⟩
  · rintro ⟨rfl, rfl⟩
    exact ⟨rfl, rfl, rfl⟩

/-- Nodes that can be linked into the chain `is`, each of them once. -/
structure Free (l : OpList α) (is js : List Nat) : Prop where
  nodup : js.Nodup
  lt_size : ∀ i ∈ js, i < l.nodes.size
  notMem : ∀ i ∈ js, i ∉ line is

theorem Free.link (h : Free l (front ++ back) (i :: js)) :
    Free (l.linkBetween i p n) (front ++ [i] ++ back) js := by
  have hnodup := List.nodup_cons.1 h.nodup
  refine ⟨hnodup.2, ?_, ?_⟩
  · intro j hj
    rw [nodes_size_linkBetween]
    exact h.lt_size j (by simp [hj])
  · intro j hj
    have hnot := h.notMem j (by simp [hj])
    have hji : j ≠ i := by
      rintro rfl
      exact hnodup.1 hj
    simp only [mem_line, List.mem_append, List.mem_singleton] at hnot ⊢
    tauto

theorem Free.unlink {p n : Nat} (h : Free l (front ++ i :: back) js) :
    Free (l.unlinkBetween i p n) (front ++ back) js := by
  refine ⟨h.nodup, ?_, ?_⟩
  · intro j hj
    rw [nodes_size_unlinkBetween]
    exact h.lt_size j hj
  · intro j hj
    have hnot := h.notMem j hj
    simp only [mem_line, List.mem_append, List.mem_cons] at hnot ⊢
    tauto

theorem link_free (h : l.Chain (front ++ back)) (hfree : Free l (front ++ back) (i :: js)) :
    (l.linkBetween i (front.getLastD headIndex) (back.headD tailIndex)).Chain
      (front ++ [i] ++ back) := by
  have hlinked := h.link (hfree.lt_size i (by simp)) (hfree.notMem i (by simp))
  simpa using hlinked

theorem forM_linkBefore (h : l.Chain (front ++ back)) (hfree : Free l (front ++ back) js) :
    ∃ l', Yields (js.forM (linkBefore (back.headD tailIndex)) : Edit α Unit) l () l' ∧
      l'.Chain (front ++ js ++ back) ∧ SameArena l l' := by
  induction js generalizing l front with
  | nil => exact ⟨l, yields_pure.2 ⟨rfl, rfl⟩, by simpa using h, .refl l⟩
  | cons i js ih =>
      obtain ⟨l', hyields, hchain, hsame⟩ := ih (h.link_free hfree) hfree.link
      refine ⟨l', ?_, by simpa using hchain, (SameArena.linkBetween ..).trans hsame⟩
      exact yields_bind.2 ⟨(), _, yields_linkBefore.2 ⟨_, h.prev?_headD, rfl⟩, hyields⟩

theorem linkRun (h : l.Chain (front ++ back)) (hfree : Free l (front ++ back) js) :
    (l.linkRun (front.getLastD headIndex) (back.headD tailIndex) js).Chain
        (front ++ js ++ back) ∧
      SameArena l (l.linkRun (front.getLastD headIndex) (back.headD tailIndex) js) := by
  induction js generalizing l front with
  | nil => exact ⟨by simpa [OpList.linkRun] using h, .refl l⟩
  | cons i js ih =>
      obtain ⟨hchain, hsame⟩ := ih (h.link_free hfree) hfree.link
      have hlast : (front ++ [i]).getLastD headIndex = i := by simp
      rw [hlast] at hchain hsame
      exact ⟨by simpa [OpList.linkRun] using hchain, (SameArena.linkBetween ..).trans hsame⟩

end Chain

/-! ## Checked operations -/

variable [ListOp α]

/-- The handles name different nodes of this list, all of them detached and holding an operation. -/
structure Insertable (l : OpList α) (ids : List OpId) : Prop where
  each : ∀ id ∈ ids, l.holds id = true ∧ l.isEnd id.index = false ∧ l.owner? id.index = none
  nodup : (ids.map OpId.index).Nodup

theorem yields_detachedIndices :
    Yields (detachedIndices ids : Edit α (List Nat)) l js l' ↔
      l.Insertable ids ∧ ids.map OpId.index = js ∧ l = l' := by
  unfold detachedIndices
  rw [yields_collect (P := fun id =>
    l.holds id = true ∧ l.isEnd id.index = false ∧ l.owner? id.index = none) _ List.nodup_nil]
  · exact and_congr_left fun _ => ⟨fun h => ⟨h.1, h.2⟩, fun h => ⟨h.each, h.nodup⟩⟩
  · intro known id js l'
    simp only [yields_bind, yields_indexOf, yields_checkNotEnd, yields_checkUnowned, yields_ite,
      not_yields_throw, yields_pure]
    grind

/-- The handles name different nodes of this list which hold an operation and are detached, unless
they are the node `old` itself. -/
structure Replacing (l : OpList α) (old : Nat) (ids : List OpId) : Prop where
  each : ∀ id ∈ ids, l.holds id = true ∧ l.isEnd id.index = false ∧
    (id.index = old ∨ l.owner? id.index = none)
  nodup : (ids.map OpId.index).Nodup

theorem yields_replacementIndices {old : Nat} :
    Yields (replacementIndices old ids : Edit α (List Nat)) l js l' ↔
      l.Replacing old ids ∧ ids.map OpId.index = js ∧ l = l' := by
  unfold replacementIndices
  rw [yields_collect (P := fun id =>
    l.holds id = true ∧ l.isEnd id.index = false ∧
      (id.index = old ∨ l.owner? id.index = none)) _ List.nodup_nil]
  · exact and_congr_left fun _ => ⟨fun h => ⟨h.1, h.2⟩, fun h => ⟨h.each, h.nodup⟩⟩
  · intro known id js l'
    simp only [yields_bind, yields_indexOf, yields_checkNotEnd, yields_checkUnowned, yields_ite,
      not_yields_throw, yields_pure]
    by_cases hold : id.index = old <;> grind

theorem lt_size_of_isEnd_eq_false (h : l.isEnd i = false) : i < l.nodes.size := by
  by_contra hi
  have hop : l.op? i = none := by
    simp [op?, Nat.le_of_not_lt hi]
  simp [isEnd, hop] at h

theorem Insertable.free (h : l.Insertable ids) (hchain : l.Chain is) :
    Chain.Free l is (ids.map OpId.index) := by
  refine ⟨h.nodup, ?_, ?_⟩
  · intro i hi
    obtain ⟨id, hid, rfl⟩ := List.mem_map.1 hi
    exact lt_size_of_isEnd_eq_false (h.each id hid).2.1
  · intro i hi
    obtain ⟨id, hid, rfl⟩ := List.mem_map.1 hi
    exact hchain.unowned_iff.1 (h.each id hid).2.2

theorem insertable_singleton :
    l.Insertable [id] ↔
      l.holds id = true ∧ l.isEnd id.index = false ∧ l.owner? id.index = none := by
  constructor
  · intro h
    exact h.each id (by simp)
  · intro h
    exact ⟨by simpa using h, by simp⟩

theorem isEnd_iff_of_chain (h : l.Chain is) {i : Nat} (hi : i ∈ is) :
    l.isEnd i = (l.op? i).all ListOp.isListEnd := by
  have hhead : i ≠ headIndex := by
    rintro rfl
    exact h.headIndex_notMem hi
  have htail : i ≠ tailIndex := by
    rintro rfl
    exact h.tailIndex_notMem hi
  simp [isEnd, hhead, htail]

namespace Chain

variable {is front back : List Nat} {ids : List OpId} {target old new : OpId} {u : Unit}

/-! ## Inserting -/

theorem yields_insertNodesBefore :
    Yields (insertNodesBefore ids target : Edit α Unit) l u l' ↔
      (l.holds target = true ∧ l.owner? target.index = some l.id ∧ target.index ≠ headIndex) ∧
        l.Insertable ids ∧
        Yields ((ids.map OpId.index).forM (linkBefore target.index) : Edit α Unit) l u l' := by
  simp only [OpList.insertNodesBefore, yields_bind, yields_indexOf, yields_checkOwned, yields_ite,
    not_yields_throw, yields_detachedIndices]
  constructor
  · rintro ⟨_, _, ⟨hheld, rfl, rfl⟩, _, _, ⟨howned, rfl⟩, ⟨-, _, _, hfalse, -⟩ | ⟨hne, hrest⟩⟩
    · exact hfalse.elim
    · obtain ⟨_, _, ⟨hids, rfl, rfl⟩, hrest⟩ := hrest
      exact ⟨⟨hheld, howned, hne⟩, hids, hrest⟩
  · rintro ⟨⟨hheld, howned, hne⟩, hids, hrest⟩
    exact ⟨_, l, ⟨hheld, rfl, rfl⟩, (), l, ⟨howned, rfl⟩,
      .inr ⟨hne, _, l, ⟨hids, rfl, rfl⟩, hrest⟩⟩

theorem insertNodesBefore (h : l.Chain (front ++ back)) (hids : l.Insertable ids) :
    ∃ l', Yields (OpList.insertNodesBefore ids (l.opId (back.headD tailIndex))) l () l' ∧
      l'.Chain (front ++ ids.map OpId.index ++ back) ∧ SameArena l l' := by
  obtain ⟨l', hyields, hchain, hsame⟩ := h.forM_linkBefore (hids.free h)
  refine ⟨l', ?_, hchain, hsame⟩
  rw [yields_insertNodesBefore]
  exact ⟨⟨by simp, h.owned_iff.2 headD_mem_line, h.headD_ne_headIndex⟩, hids, hyields⟩

theorem of_insertNodesBefore
    (h : l.Chain is) (hyields : Yields (OpList.insertNodesBefore ids target) l u l') :
    l.Insertable ids ∧ SameArena l l' ∧
      ∃ front back, is = front ++ back ∧ target = l.opId (back.headD tailIndex) ∧
        l'.Chain (front ++ ids.map OpId.index ++ back) := by
  obtain ⟨⟨hheld, howned, hne⟩, hids, -⟩ := yields_insertNodesBefore.1 hyields
  obtain ⟨front, back, rfl, hcut⟩ := exists_cut_before (h.owned_iff.1 howned) hne
  have htarget : target = l.opId (back.headD tailIndex) := by
    rw [hcut]
    exact eq_opId_of_holds hheld
  obtain ⟨l₁, hyields₁, hchain, hsame⟩ := h.insertNodesBefore hids
  rw [← htarget] at hyields₁
  obtain ⟨-, rfl⟩ := hyields.unique hyields₁
  exact ⟨hids, hsame, front, back, rfl, htarget, hchain⟩

theorem yields_insertNodeAfter :
    Yields (OpList.insertNodeAfter id target : Edit α Unit) l u l' ↔
      (l.holds target = true ∧ l.owner? target.index = some l.id ∧ target.index ≠ tailIndex) ∧
        l.Insertable [id] ∧
        ∃ n, l.next? target.index = some n ∧ l.linkBetween id.index target.index n = l' := by
  simp only [OpList.insertNodeAfter, yields_bind, yields_indexOf, yields_checkOwned, yields_ite,
    not_yields_throw, yields_checkNotEnd, yields_checkUnowned, yields_after, yields_edit_modify,
    insertable_singleton]
  constructor
  · rintro ⟨_, _, ⟨hheld, rfl, rfl⟩, _, _, ⟨howned, rfl⟩, ⟨-, _, _, hfalse, -⟩ | ⟨hne, hrest⟩⟩
    · exact hfalse.elim
    · obtain ⟨_, _, ⟨hid, rfl, rfl⟩, _, _, ⟨hend, rfl⟩, _, _, ⟨hfree, rfl⟩, n, _, ⟨hn, rfl⟩,
        hlink⟩ := hrest
      exact ⟨⟨hheld, howned, hne⟩, ⟨hid, hend, hfree⟩, n, hn, hlink⟩
  · rintro ⟨⟨hheld, howned, hne⟩, ⟨hid, hend, hfree⟩, n, hn, hlink⟩
    exact ⟨_, l, ⟨hheld, rfl, rfl⟩, (), l, ⟨howned, rfl⟩, .inr ⟨hne, _, l, ⟨hid, rfl, rfl⟩,
      (), l, ⟨hend, rfl⟩, (), l, ⟨hfree, rfl⟩, n, l, ⟨hn, rfl⟩, hlink⟩⟩

theorem insertNodeAfter (h : l.Chain (front ++ back)) (hid : l.Insertable [id]) :
    ∃ l', Yields (OpList.insertNodeAfter id (l.opId (front.getLastD headIndex))) l () l' ∧
      l'.Chain (front ++ id.index :: back) ∧ SameArena l l' := by
  have hfree := hid.free h
  refine ⟨l.linkBetween id.index (front.getLastD headIndex) (back.headD tailIndex), ?_, ?_,
    .linkBetween ..⟩
  · rw [yields_insertNodeAfter]
    exact ⟨⟨by simp, h.owned_iff.2 getLastD_mem_line, h.getLastD_ne_tailIndex⟩, hid, _,
      h.next?_getLastD, rfl⟩
  · exact h.link (hfree.lt_size _ (by simp)) (hfree.notMem _ (by simp))

theorem of_insertNodeAfter
    (h : l.Chain is) (hyields : Yields (OpList.insertNodeAfter id target) l u l') :
    l.Insertable [id] ∧ SameArena l l' ∧
      ∃ front back, is = front ++ back ∧ target = l.opId (front.getLastD headIndex) ∧
        l'.Chain (front ++ id.index :: back) := by
  obtain ⟨⟨hheld, howned, hne⟩, hid, -⟩ := yields_insertNodeAfter.1 hyields
  obtain ⟨front, back, rfl, hcut⟩ := exists_cut_after (h.owned_iff.1 howned) hne
  have htarget : target = l.opId (front.getLastD headIndex) := by
    rw [hcut]
    exact eq_opId_of_holds hheld
  obtain ⟨l₁, hyields₁, hchain, hsame⟩ := h.insertNodeAfter hid
  rw [← htarget] at hyields₁
  obtain ⟨-, rfl⟩ := hyields.unique hyields₁
  exact ⟨hid, hsame, front, back, rfl, htarget, hchain⟩

/-! ## Replacing and removing -/

theorem mem_of_owned (h : l.Chain is) (howned : l.owner? i = some l.id)
    (hend : l.isEnd i = false) : i ∈ is := by
  rcases mem_line.1 (h.owned_iff.1 howned) with rfl | hmem | rfl
  · simp [isEnd] at hend
  · exact hmem
  · simp [isEnd] at hend

theorem yields_remove :
    Yields (OpList.remove old : Edit α Unit) l u l' ↔
      (l.holds old = true ∧ l.isEnd old.index = false ∧ l.owner? old.index = some l.id) ∧
        ∃ result, Yields (OpList.unlink old.index : Edit α (Nat × Nat)) l result l' := by
  simp only [OpList.remove, yields_bind, yields_indexOf, yields_checkNotEnd, yields_checkOwned,
    yields_pure]
  constructor
  · rintro ⟨_, _, ⟨hheld, rfl, rfl⟩, _, _, ⟨hend, rfl⟩, _, _, ⟨howned, rfl⟩, result, _, hresult,
      -, rfl⟩
    exact ⟨⟨hheld, hend, howned⟩, result, hresult⟩
  · rintro ⟨⟨hheld, hend, howned⟩, result, hresult⟩
    exact ⟨_, l, ⟨hheld, rfl, rfl⟩, (), l, ⟨hend, rfl⟩, (), l, ⟨howned, rfl⟩, result, l',
      hresult, trivial, rfl⟩

theorem remove (h : l.Chain (front ++ i :: back)) (hend : l.isEnd i = false) :
    ∃ l', Yields (OpList.remove (l.opId i)) l () l' ∧ l'.Chain (front ++ back) ∧
      SameArena l l' := by
  refine ⟨_, ?_, h.unlink, .unlinkBetween ..⟩
  rw [yields_remove]
  exact ⟨⟨by simp, hend, h.owned_of_mem (by simp)⟩, _, h.yields_unlink_iff.2 ⟨rfl, rfl⟩⟩

theorem of_remove (h : l.Chain is) (hyields : Yields (OpList.remove old) l u l') :
    SameArena l l' ∧
      ∃ front back, is = front ++ old.index :: back ∧ old = l.opId old.index ∧
        l'.Chain (front ++ back) := by
  obtain ⟨⟨hheld, hend, howned⟩, -⟩ := yields_remove.1 hyields
  obtain ⟨front, back, rfl⟩ := List.append_of_mem (h.mem_of_owned howned hend)
  have hold := eq_opId_of_holds hheld
  obtain ⟨l₁, hyields₁, hchain, hsame⟩ := h.remove hend
  rw [← hold] at hyields₁
  obtain ⟨-, rfl⟩ := hyields.unique hyields₁
  exact ⟨hsame, front, back, rfl, hold, hchain⟩

theorem yields_replaceNode :
    Yields (OpList.replaceNode old new : Edit α Unit) l u l' ↔
      (l.holds old = true ∧ l.isEnd old.index = false ∧ l.owner? old.index = some l.id) ∧
        l.Insertable [new] ∧
        ∃ p n l₁, Yields (OpList.unlink old.index : Edit α (Nat × Nat)) l (p, n) l₁ ∧
          l₁.linkBetween new.index p n = l' := by
  simp only [OpList.replaceNode, yields_bind, yields_indexOf, yields_checkNotEnd,
    yields_checkOwned, yields_checkUnowned, yields_edit_modify, insertable_singleton]
  constructor
  · rintro ⟨_, _, ⟨hold, rfl, rfl⟩, _, _, ⟨hnew, rfl, rfl⟩, _, _, ⟨hend, rfl⟩, _, _,
      ⟨hnewEnd, rfl⟩, _, _, ⟨howned, rfl⟩, _, _, ⟨hfree, rfl⟩, ⟨p, n⟩, l₁, hunlink, hlink⟩
    exact ⟨⟨hold, hend, howned⟩, ⟨hnew, hnewEnd, hfree⟩, p, n, l₁, hunlink, hlink⟩
  · rintro ⟨⟨hold, hend, howned⟩, ⟨hnew, hnewEnd, hfree⟩, p, n, l₁, hunlink, hlink⟩
    exact ⟨_, l, ⟨hold, rfl, rfl⟩, _, l, ⟨hnew, rfl, rfl⟩, (), l, ⟨hend, rfl⟩, (), l,
      ⟨hnewEnd, rfl⟩, (), l, ⟨howned, rfl⟩, (), l, ⟨hfree, rfl⟩, (p, n), l₁, hunlink, hlink⟩

theorem replaceNode
    (h : l.Chain (front ++ i :: back)) (hend : l.isEnd i = false) (hnew : l.Insertable [new]) :
    ∃ l', Yields (OpList.replaceNode (l.opId i) new) l () l' ∧
      l'.Chain (front ++ new.index :: back) ∧ SameArena l l' := by
  have hfree := (hnew.free h).unlink (p := front.getLastD headIndex) (n := back.headD tailIndex)
  refine ⟨(l.unlinkBetween i (front.getLastD headIndex) (back.headD tailIndex)).linkBetween
    new.index (front.getLastD headIndex) (back.headD tailIndex), ?_, ?_,
    (SameArena.unlinkBetween ..).trans (.linkBetween ..)⟩
  · rw [yields_replaceNode]
    exact ⟨⟨by simp, hend, h.owned_of_mem (by simp)⟩, hnew, _, _, _,
      h.yields_unlink_iff.2 ⟨rfl, rfl⟩, rfl⟩
  · exact h.unlink.link (hfree.lt_size _ (by simp)) (hfree.notMem _ (by simp))

theorem of_replaceNode (h : l.Chain is) (hyields : Yields (OpList.replaceNode old new) l u l') :
    l.Insertable [new] ∧ SameArena l l' ∧
      ∃ front back, is = front ++ old.index :: back ∧ old = l.opId old.index ∧
        l'.Chain (front ++ new.index :: back) := by
  obtain ⟨⟨hheld, hend, howned⟩, hnew, -⟩ := yields_replaceNode.1 hyields
  obtain ⟨front, back, rfl⟩ := List.append_of_mem (h.mem_of_owned howned hend)
  have hold := eq_opId_of_holds hheld
  obtain ⟨l₁, hyields₁, hchain, hsame⟩ := h.replaceNode hend hnew
  rw [← hold] at hyields₁
  obtain ⟨-, rfl⟩ := hyields.unique hyields₁
  exact ⟨hnew, hsame, front, back, rfl, hold, hchain⟩

theorem yields_replaceWithMany (hne : ids ≠ []) :
    Yields (OpList.replaceWithMany old ids : Edit α Unit) l u l' ↔
      (l.holds old = true ∧ l.isEnd old.index = false ∧ l.owner? old.index = some l.id) ∧
        l.Replacing old.index ids ∧
        ∃ p n l₁, Yields (OpList.unlink old.index : Edit α (Nat × Nat)) l (p, n) l₁ ∧
          l₁.linkRun p n (ids.map OpId.index) = l' := by
  have hempty : ids.isEmpty = false := by simpa using hne
  simp only [OpList.replaceWithMany, hempty, Bool.false_eq_true, if_false, yields_bind,
    yields_indexOf, yields_checkNotEnd, yields_checkOwned, yields_replacementIndices,
    yields_edit_modify]
  constructor
  · rintro ⟨_, _, ⟨hold, rfl, rfl⟩, _, _, ⟨hend, rfl⟩, _, _, ⟨howned, rfl⟩, _, _,
      ⟨hids, rfl, rfl⟩, ⟨p, n⟩, l₁, hunlink, hlink⟩
    exact ⟨⟨hold, hend, howned⟩, hids, p, n, l₁, hunlink, hlink⟩
  · rintro ⟨⟨hold, hend, howned⟩, hids, p, n, l₁, hunlink, hlink⟩
    exact ⟨_, l, ⟨hold, rfl, rfl⟩, (), l, ⟨hend, rfl⟩, (), l, ⟨howned, rfl⟩, _, l,
      ⟨hids, rfl, rfl⟩, (p, n), l₁, hunlink, hlink⟩

theorem free_of_replacing {p n : Nat}
    (h : l.Chain (front ++ i :: back)) (hids : l.Replacing i ids) :
    Free (l.unlinkBetween i p n) (front ++ back) (ids.map OpId.index) := by
  refine ⟨hids.nodup, ?_, ?_⟩
  · intro j hj
    obtain ⟨id, hid, rfl⟩ := List.mem_map.1 hj
    rw [nodes_size_unlinkBetween]
    exact lt_size_of_isEnd_eq_false (hids.each id hid).2.1
  · intro j hj
    obtain ⟨id, hid, rfl⟩ := List.mem_map.1 hj
    rcases (hids.each id hid).2.2 with rfl | hfree
    · have hnodup := h.nodup
      simp only [line] at hnodup ⊢
      grind
    · have hnot := h.unowned_iff.1 hfree
      simp only [mem_line, List.mem_append, List.mem_cons] at hnot ⊢
      tauto

theorem of_replaceWithMany
    (h : l.Chain is) (hne : ids ≠ []) (hyields : Yields (OpList.replaceWithMany old ids) l u l') :
    l.Replacing old.index ids ∧ SameArena l l' ∧
      ∃ front back, is = front ++ old.index :: back ∧ old = l.opId old.index ∧
        l'.Chain (front ++ ids.map OpId.index ++ back) := by
  obtain ⟨⟨hheld, hend, howned⟩, hids, p, n, l₁, hunlink, hlink⟩ :=
    (yields_replaceWithMany hne).1 hyields
  obtain ⟨front, back, rfl⟩ := List.append_of_mem (h.mem_of_owned howned hend)
  obtain ⟨hpair, rfl⟩ := h.yields_unlink_iff.1 hunlink
  simp only [Prod.mk.injEq] at hpair
  obtain ⟨rfl, rfl⟩ := hpair
  subst hlink
  obtain ⟨hchain, hsame⟩ := h.unlink.linkRun (h.free_of_replacing hids)
  exact ⟨hids, (SameArena.unlinkBetween ..).trans hsame, front, back, rfl,
    eq_opId_of_holds hheld, hchain⟩

end Chain

/-! ## Creating -/

def allocAll (l : OpList α) (ops : List α) : OpList α :=
  ops.foldl OpList.alloc l

omit [ListOp α] in
theorem allocAll_id (ops : List α) : (l.allocAll ops).id = l.id := by
  induction ops generalizing l with
  | nil => rfl
  | cons op ops ih => exact ih

omit [ListOp α] in
theorem allocAll_arena (ops : List α) : (l.allocAll ops).arena = l.arena := by
  induction ops generalizing l with
  | nil => rfl
  | cons op ops ih => exact ih

omit [ListOp α] in
theorem allocAll_nodes (ops : List α) :
    (l.allocAll ops).nodes.toList.map OpNode.op = l.nodes.toList.map OpNode.op ++ ops := by
  induction ops generalizing l with
  | nil => simp [allocAll]
  | cons op ops ih =>
      have hrest := ih (l := l.alloc op)
      simp only [alloc, Array.toList_push, List.map_append, List.map_cons, List.map_nil,
        List.append_assoc, List.cons_append, List.nil_append] at hrest
      exact hrest

omit [ListOp α] in
theorem Chain.allocAll (h : l.Chain is) (ops : List α) : (l.allocAll ops).Chain is := by
  induction ops generalizing l with
  | nil => exact h
  | cons op ops ih => exact ih (h.alloc op)

def freshIds (l : OpList α) (count : Nat) : List OpId :=
  (List.range' l.nodes.size count).map l.opId

theorem yields_mapM_create {ops : List α} :
    Yields (ops.mapM create : Edit α (List OpId)) l ids l' ↔
      (∀ op ∈ ops, ListOp.isListEnd op = false) ∧ l.freshIds ops.length = ids ∧
        l.allocAll ops = l' := by
  induction ops generalizing l ids l' with
  | nil => simp [yields_pure, freshIds, allocAll]
  | cons op ops ih =>
      simp only [List.mapM_cons, yields_bind, yields_create, yields_pure, ih]
      have hfresh : l.freshIds (op :: ops).length =
          l.opId l.nodes.size :: (l.alloc op).freshIds ops.length := by
        simp only [freshIds, List.length_cons, List.range'_succ, List.map_cons, nodes_size_alloc]
        rfl
      constructor
      · rintro ⟨_, _, ⟨hop, rfl, rfl⟩, _, _, ⟨hops, rfl, rfl⟩, rfl, rfl⟩
        exact ⟨by simpa using ⟨hop, hops⟩, hfresh, rfl⟩
      · rintro ⟨hops, rfl, rfl⟩
        simp only [List.mem_cons, forall_eq_or_imp] at hops
        exact ⟨_, _, ⟨hops.1, rfl, rfl⟩, _, _, ⟨hops.2, rfl, rfl⟩, hfresh.symm, rfl⟩

theorem Chain.insertable_freshIds {ops : List α} (h : l.Chain is)
    (hops : ∀ op ∈ ops, ListOp.isListEnd op = false) :
    (l.allocAll ops).Insertable (l.freshIds ops.length) := by
  have hsize := h.line_length_le
  have hindex : (l.freshIds ops.length).map OpId.index =
      List.range' l.nodes.size ops.length := by
    simp [freshIds, Function.comp_def]
  refine ⟨?_, by rw [hindex]; exact List.nodup_range'⟩
  intro id hid
  obtain ⟨i, hi, rfl⟩ := List.mem_map.1 hid
  rw [List.mem_range'_1] at hi
  have hop : (l.allocAll ops).op? i = ops[i - l.nodes.size]? := by
    have hnodes := congrArg (fun xs : List α => xs[i]?) (allocAll_nodes (l := l) ops)
    simp only [List.getElem?_map, Array.getElem?_toList] at hnodes
    rw [op?, hnodes, List.getElem?_append_right (by simpa using hi.1)]
    simp
  refine ⟨?_, ?_, ?_⟩
  · simp [holds, opId, allocAll_id, allocAll_arena]
  · have hlt : i - l.nodes.size < ops.length := by omega
    have hne : i ≠ headIndex ∧ i ≠ tailIndex := by
      simp only [headIndex, tailIndex]
      omega
    simp only [opId_index, isEnd, hop, hne.1, hne.2, decide_false, Bool.false_or,
      List.getElem?_eq_getElem hlt, Option.all_some]
    exact hops _ (List.getElem_mem hlt)
  · rw [(h.allocAll ops).unowned_iff]
    intro hmem
    have := h.bound _ hmem
    simp only [opId_index] at this
    omega

end TemplateLowering.OpList
