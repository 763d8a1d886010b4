import TemplateLowering.Proofs.OpList.Content

/-!
# Lists that keep their number

Whatever is written into the linked nodes of a list, or added at one of its ends, the number of the
list stays as it is.
-/

namespace TemplateLowering.OpList

variable {α : Type} {l l' : OpList α}

/-! ## Writing operations -/

theorem Linked.id_map (h : l.Linked) (f : α → α) : (l.map f).id = l.id := by
  obtain ⟨is, hchain⟩ := h
  rw [hchain.map_eq]
  exact overwrite_id _ _

theorem Linked.id_of_mapM {m : Type → Type} [Monad m] [LawfulMonad m] {σ ε : Type} [Stateful m σ ε]
    {s t : σ} (h : l.Linked) {f : α → m α} (hyields : Yields (l.mapM f) s l' t) : l'.id = l.id := by
  obtain ⟨is, hchain⟩ := h
  obtain ⟨ops, -, rfl⟩ := hchain.yields_mapM.1 hyields
  exact overwrite_id _ _

/-! ## Adding operations -/

section Edit

variable [ListOp α] {op : α}

theorem Linked.lists_of_prepend (h : l.Linked) (hop : ListOp.isListEnd op = false)
    (hedit : editList l (prepend [op]) = .ok l') : l'.Lists (op :: l.toList) ∧ l'.id = l.id := by
  obtain ⟨is, hchain⟩ := h
  obtain ⟨ids, other, hyields, hother⟩ := hchain.lists.prepend hop
  obtain ⟨ids', other', hyields', -, hsame⟩ := hchain.prepend hop
  obtain rfl := Except.ok.inj (hedit.symm.trans (editList_eq_ok hyields))
  obtain ⟨-, rfl⟩ := hyields.unique hyields'
  rw [hchain.toList_eq]
  exact ⟨hother, hsame.id⟩

theorem Linked.id_of_push (h : l.Linked) (hop : ListOp.isListEnd op = false)
    (hedit : editList l (push op) = .ok l') : l'.id = l.id := by
  obtain ⟨is, hchain⟩ := h
  obtain ⟨id, other, hyields, -, hsame⟩ := hchain.push hop
  obtain rfl := Except.ok.inj (hedit.symm.trans (editList_eq_ok hyields))
  exact hsame.id

end Edit

end TemplateLowering.OpList
