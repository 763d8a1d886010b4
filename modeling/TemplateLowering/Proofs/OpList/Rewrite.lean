import TemplateLowering.Proofs.OpList.Payload

/-!
# Rewriting in place

A function that changes nothing when it is applied again can be written over the operations of any
list, whatever its links: each linked node holds the rewritten operation afterwards, however often
it was come by, and nothing else of the list changes.
-/

namespace TemplateLowering.OpList

variable {α : Type} {l l' : OpList α} {js : List Nat} {i : Nat}

/-- The list with the operations of some nodes rewritten. -/
def rewrite (g : α → α) (js : List Nat) (l : OpList α) : OpList α :=
  { l with nodes := l.nodes.mapIdx fun i node =>
      if i ∈ js then { node with op := g node.op } else node }

section Rewrite

variable {g : α → α}

theorem op?_rewrite (i : Nat) :
    (l.rewrite g js).op? i = if i ∈ js then (l.op? i).map g else l.op? i := by
  simp only [rewrite, op?, Array.getElem?_mapIdx, Option.map_map]
  cases l.nodes[i]? <;> split_ifs <;> simp

theorem indices_rewrite : (l.rewrite g js).indices = l.indices := by
  have hnext : (l.rewrite g js).next? = l.next? := by
    funext i
    simp only [rewrite, next?, Array.getElem?_mapIdx]
    cases l.nodes[i]? <;> simp
    split_ifs <;> rfl
  rw [indices, indices, hnext]
  simp [rewrite]

theorem rewrite_eq_self (h : ∀ op ∈ js.filterMap l.op?, g op = op) : l.rewrite g js = l := by
  have hnodes : l.nodes.mapIdx (fun i node =>
      if i ∈ js then { node with op := g node.op } else node) = l.nodes := by
    apply Array.ext_getElem?
    intro i
    rw [Array.getElem?_mapIdx]
    cases hnode : l.nodes[i]? with
    | none => rfl
    | some node =>
      rw [Option.map_some]
      split_ifs with hi
      · rw [h node.op (List.mem_filterMap.2 ⟨i, hi, by rw [op?, hnode]; rfl⟩)]
      · rfl
  rw [rewrite, hnodes]

theorem rewrite_setOp (hg : ∀ op, g (g op) = g op) {op : α} (hop : l.op? i = some op) :
    (l.setOp i (g op)).rewrite g js = l.rewrite g (i :: js) := by
  obtain ⟨node, hnode, rfl⟩ := Option.map_eq_some_iff.1 hop
  have hnodes : ((l.setOp i (g node.op)).rewrite g js).nodes = (l.rewrite g (i :: js)).nodes := by
    apply Array.ext_getElem?
    intro k
    simp only [rewrite, setOp, Array.getElem?_mapIdx, Array.getElem?_modify, List.mem_cons]
    by_cases hk : i = k
    · subst hk
      by_cases hmem : i ∈ js <;> simp [hnode, hmem, hg]
    · simp [hk, Ne.symm hk]
  rw [rewrite, rewrite, OpList.mk.injEq]
  exact ⟨rfl, rfl, hnodes, rfl⟩

theorem rewrite_cons_of_none (hop : l.op? i = none) : l.rewrite g (i :: js) = l.rewrite g js := by
  have hnodes : (l.rewrite g (i :: js)).nodes = (l.rewrite g js).nodes := by
    apply Array.ext_getElem?
    intro k
    simp only [rewrite, Array.getElem?_mapIdx, List.mem_cons]
    by_cases hk : k = i
    · rw [hk, Option.map_eq_none_iff.1 hop]
      rfl
    · simp [hk]
  rw [rewrite, rewrite, OpList.mk.injEq]
  exact ⟨rfl, rfl, hnodes, rfl⟩

variable {m : Type → Type} [Monad m] [LawfulMonad m] {σ ε : Type} [Stateful m σ ε]
variable {visit : α → m α} {K : σ → Prop} {p : α → Prop} {s t : σ}

theorem yields_foldlM_modifyOpM (hg : ∀ op, g (g op) = g op) (hp : ∀ op, ¬p (g op))
    (hvisit : ∀ op s op' t, Yields (visit op) s op' t → op' = g op ∧ (K t ↔ K s ∨ p op))
    (h : Yields (js.foldlM (modifyOpM visit) l) s l' t) :
    l' = l.rewrite g js ∧ (K t ↔ K s ∨ ∃ op ∈ js.filterMap l.op?, p op) := by
  induction js generalizing l s with
  | nil =>
    obtain ⟨rfl, rfl⟩ := yields_pure.1 h
    exact ⟨(rewrite_eq_self (by simp)).symm, by simp⟩
  | cons j js ih =>
    rw [List.foldlM_cons, yields_bind] at h
    obtain ⟨middle, u, hfirst, hrest⟩ := h
    obtain ⟨rfl, hnotes⟩ := ih hrest
    cases hop : l.op? j with
    | none =>
      have hpure : modifyOpM visit l j = pure l := by
        rw [modifyOpM, Option.map_eq_none_iff.1 hop]
      rw [hpure, yields_pure] at hfirst
      obtain ⟨rfl, rfl⟩ := hfirst
      rw [rewrite_cons_of_none hop, List.filterMap_cons_none hop]
      exact ⟨rfl, hnotes⟩
    | some op =>
      rw [modifyOpM_eq visit hop, yields_map] at hfirst
      obtain ⟨op', hop', rfl⟩ := hfirst
      obtain ⟨rfl, hnote⟩ := hvisit _ _ _ _ hop'
      have hj : j < l.nodes.size := by
        by_contra hle
        simp [op?, Nat.le_of_not_lt hle] at hop
      refine ⟨rewrite_setOp hg hop, ?_⟩
      rw [hnotes, hnote, List.filterMap_cons_some hop, List.exists_mem_cons_iff, or_assoc]
      refine or_congr_right ?_
      simp only [List.mem_filterMap, op?_setOp hj]
      grind

theorem map_eq_rewrite (hg : ∀ op, g (g op) = g op) (l : OpList α) :
    l.map g = l.rewrite g l.indices := by
  have hyields : Yields (l.mapM fun op => (pure (g op) : Id α)) () (l.map g) () := yields_id.2 rfl
  refine (yields_foldlM_modifyOpM (K := fun _ => False) (p := fun _ => False) hg (by simp) ?_
    hyields).1
  intro op s op' t hop
  exact ⟨(yields_pure.1 hop).1.symm, by simp⟩

/-- A visit that rewrites each operation, and notes those that are to be rewritten. -/
theorem rewritten_of_mapM (hg : ∀ op, g (g op) = g op) (hp : ∀ op, ¬p (g op))
    (hvisit : ∀ op s op' t, Yields (visit op) s op' t → op' = g op ∧ (K t ↔ K s ∨ p op))
    (h : Yields (l.mapM visit) s l' t) : l' = l.map g ∧ (K t ↔ K s ∨ ∃ op ∈ l.toList, p op) := by
  rw [map_eq_rewrite hg]
  exact yields_foldlM_modifyOpM hg hp hvisit h

theorem toList_map (hg : ∀ op, g (g op) = g op) (l : OpList α) :
    (l.map g).toList = l.toList.map g := by
  rw [map_eq_rewrite hg, toList, indices_rewrite, toList, List.map_filterMap]
  apply List.filterMap_congr
  intro i hi
  rw [op?_rewrite, if_pos hi]

theorem map_map (hg : ∀ op, g (g op) = g op) (l : OpList α) : (l.map g).map g = l.map g := by
  rw [map_eq_rewrite hg (l.map g)]
  apply rewrite_eq_self
  intro op hop
  change op ∈ (l.map g).toList at hop
  rw [toList_map hg] at hop
  obtain ⟨old, -, rfl⟩ := List.mem_map.1 hop
  exact hg old

end Rewrite

end TemplateLowering.OpList
