import TemplateLowering.Proofs.OpList.Edit

/-!
# Operations of a chain

Visiting a list in place reaches each linked operation once, in the order of the chain, whatever the
order of the arena: `mapM_eq` says that it is a visit of the plain sequence of operations, followed
by writing the results back.  Writing operations never touches a link.
-/

namespace TemplateLowering.OpList

variable {α : Type} {l : OpList α} {is : List Nat} {i : Nat}

/-! ## Writing one operation -/

def setOp (l : OpList α) (i : Nat) (op : α) : OpList α :=
  { l with nodes := l.nodes.modify i fun node => { node with op } }

theorem op?_setOp (hi : i < l.nodes.size) (op : α) (j : Nat) :
    (l.setOp i op).op? j = if j = i then some op else l.op? j := by
  simp only [setOp, op?, Array.getElem?_modify]
  by_cases hji : j = i
  · subst hji
    simp [hi]
  · simp [hji, Ne.symm hji]

@[simp] theorem nodes_size_setOp (op : α) : (l.setOp i op).nodes.size = l.nodes.size := by
  simp [setOp]

theorem next?_setOp (op : α) (j : Nat) : (l.setOp i op).next? j = l.next? j := by
  simp only [setOp, next?, Array.getElem?_modify]
  cases l.nodes[j]? <;> split_ifs <;> simp

theorem prev?_setOp (op : α) (j : Nat) : (l.setOp i op).prev? j = l.prev? j := by
  simp only [setOp, prev?, Array.getElem?_modify]
  cases l.nodes[j]? <;> split_ifs <;> simp

theorem owner?_setOp (op : α) (j : Nat) : (l.setOp i op).owner? j = l.owner? j := by
  simp only [setOp, owner?, Array.getElem?_modify]
  cases l.nodes[j]? <;> split_ifs <;> simp

theorem Chain.setOp (h : l.Chain is) (i : Nat) (op : α) : (l.setOp i op).Chain is := by
  constructor
  · exact h.nodup
  · simpa using h.bound
  · intro j
    rw [next?_setOp, h.next]
  · intro j
    rw [prev?_setOp, h.prev]
  · intro j
    rw [owner?_setOp, h.owner]
    rfl
  · exact h.len

theorem setOp_self {op : α} (hop : l.op? i = some op) : l.setOp i op = l := by
  have hnodes : l.nodes.modify i (fun node => { node with op }) = l.nodes := by
    apply Array.ext_getElem?
    intro j
    rw [Array.getElem?_modify]
    split_ifs with hij
    · subst hij
      obtain ⟨node, hnode, rfl⟩ := Option.map_eq_some_iff.1 hop
      rw [hnode]
      rfl
    · rfl
  rw [setOp, hnodes]

theorem modifyOpM_eq {m : Type → Type} [Monad m] [LawfulMonad m] (f : α → m α) {op : α}
    (hop : l.op? i = some op) : modifyOpM f l i = l.setOp i <$> f op := by
  obtain ⟨node, hnode, rfl⟩ := Option.map_eq_some_iff.1 hop
  have hset : ∀ op : α,
      ({ l with nodes := l.nodes.setIfInBounds i { node with op } } : OpList α) =
        l.setOp i op := by
    intro op
    have hnodes : l.nodes.setIfInBounds i { node with op } =
        l.nodes.modify i fun node => { node with op } := by
      apply Array.ext_getElem?
      intro j
      rw [Array.getElem?_setIfInBounds, Array.getElem?_modify]
      by_cases hij : i = j
      · subst hij
        have hi : i < l.nodes.size := by
          by_contra hlt
          simp [Nat.le_of_not_lt hlt] at hnode
        rw [if_pos rfl, if_pos hi, if_pos rfl, hnode]
        rfl
      · simp [hij]
    rw [setOp, hnodes]
  simp only [modifyOpM, hnode, hset, bind_pure_comp]

/-! ## Writing the operations of a chain -/

def overwrite (l : OpList α) : List Nat → List α → OpList α
  | i :: is, op :: ops => (l.setOp i op).overwrite is ops
  | _, _ => l

def withOps (l : OpList α) (ops : List α) : OpList α :=
  l.overwrite l.indices ops

/-- The second sequence where it reaches, and the first one beyond it. -/
def overlay : List α → List α → List α
  | _ :: as, b :: bs => b :: overlay as bs
  | as, _ => as

theorem overlay_of_length_eq {as bs : List α} (h : bs.length = as.length) : overlay as bs = bs := by
  induction as generalizing bs with
  | nil => simpa [overlay] using (List.length_eq_zero_iff.1 h).symm
  | cons a as ih =>
      cases bs with
      | nil => simp at h
      | cons b bs =>
          simp only [overlay, List.cons.injEq, true_and]
          exact ih (by simpa using h)

theorem overlay_map_mapM {m : Type → Type} [Monad m] [LawfulMonad m] (f : α → m α) (as : List α) :
    overlay as <$> as.mapM f = as.mapM f := by
  induction as with
  | nil => simp [overlay]
  | cons a as ih =>
      rw [List.mapM_cons]
      simp only [map_bind, map_pure, overlay]
      nth_rewrite 2 [← ih]
      simp only [bind_map_left]

theorem Chain.overwrite (h : l.Chain is) (js : List Nat) (ops : List α) :
    (l.overwrite js ops).Chain is := by
  induction js generalizing l ops with
  | nil => simpa [OpList.overwrite] using h
  | cons j js ih =>
      cases ops with
      | nil => simpa [OpList.overwrite] using h
      | cons op ops => exact ih (h.setOp j op) ops

theorem overwrite_id (js : List Nat) (ops : List α) : (l.overwrite js ops).id = l.id := by
  induction js generalizing l ops with
  | nil => simp [overwrite]
  | cons j js ih =>
      cases ops with
      | nil => simp [overwrite]
      | cons op ops => exact ih ops

theorem overwrite_arena (js : List Nat) (ops : List α) : (l.overwrite js ops).arena = l.arena := by
  induction js generalizing l ops with
  | nil => simp [overwrite]
  | cons j js ih =>
      cases ops with
      | nil => simp [overwrite]
      | cons op ops => exact ih ops

theorem op?_overwrite_of_notMem {js : List Nat} {ops : List α} (hjs : ∀ j ∈ js, j < l.nodes.size)
    (hi : i ∉ js) : (l.overwrite js ops).op? i = l.op? i := by
  induction js generalizing l ops with
  | nil => simp [overwrite]
  | cons j js ih =>
      cases ops with
      | nil => simp [overwrite]
      | cons op ops =>
          simp only [List.mem_cons, not_or] at hi
          have hj : j < l.nodes.size := hjs j (by simp)
          have hrest : ∀ k ∈ js, k < (l.setOp j op).nodes.size := by
            intro k hk
            simpa using hjs k (by simp [hk])
          simp only [overwrite]
          rw [ih hrest hi.2, op?_setOp hj, if_neg hi.1]

theorem filterMap_op?_overwrite {js : List Nat} {ops : List α}
    (hjs : ∀ j ∈ js, j < l.nodes.size) (hnodup : js.Nodup) :
    js.filterMap (l.overwrite js ops).op? = overlay (js.filterMap l.op?) ops := by
  induction js generalizing l ops with
  | nil => simp [overlay]
  | cons j js ih =>
      have hj : j < l.nodes.size := hjs j (by simp)
      obtain ⟨old, hold⟩ : ∃ old, l.op? j = some old := ⟨_, by simp [op?, hj]; rfl⟩
      cases ops with
      | nil => simp [overwrite, overlay, hold]
      | cons op ops =>
          rw [List.nodup_cons] at hnodup
          have hrest : ∀ k ∈ js, k < (l.setOp j op).nodes.size := by
            intro k hk
            simpa using hjs k (by simp [hk])
          have hfirst : ((l.setOp j op).overwrite js ops).op? j = some op := by
            rw [op?_overwrite_of_notMem hrest hnodup.1, op?_setOp hj, if_pos rfl]
          have hsame : js.filterMap (l.setOp j op).op? = js.filterMap l.op? := by
            apply List.filterMap_congr
            intro k hk
            rw [op?_setOp hj, if_neg]
            rintro rfl
            exact hnodup.1 hk
          simp only [overwrite, List.filterMap_cons, hfirst, hold, overlay]
          rw [ih hrest hnodup.2, hsame]

theorem overwrite_filterMap_op? {js : List Nat} (h : ∀ j ∈ js, j < l.nodes.size) :
    l.overwrite js (js.filterMap l.op?) = l := by
  induction js with
  | nil => rfl
  | cons j js ih =>
      obtain ⟨op, hop⟩ : ∃ op, l.op? j = some op := ⟨_, by simp [op?, h j (by simp)]; rfl⟩
      rw [List.filterMap_cons, hop, overwrite, setOp_self hop]
      exact ih fun k hk => h k (by simp [hk])

theorem foldlM_modifyOpM_eq {m : Type → Type} [Monad m] [LawfulMonad m] (f : α → m α)
    {js : List Nat} (hjs : ∀ j ∈ js, j < l.nodes.size) (hnodup : js.Nodup) :
    js.foldlM (modifyOpM f) l = l.overwrite js <$> (js.filterMap l.op?).mapM f := by
  induction js generalizing l with
  | nil => simp [overwrite]
  | cons j js ih =>
      have hj : j < l.nodes.size := hjs j (by simp)
      obtain ⟨old, hold⟩ : ∃ old, l.op? j = some old := ⟨_, by simp [op?, hj]; rfl⟩
      rw [List.nodup_cons] at hnodup
      have hstep : ∀ op : α,
          js.foldlM (modifyOpM f) (l.setOp j op) =
            (l.setOp j op).overwrite js <$> (js.filterMap l.op?).mapM f := by
        intro op
        have hrest : ∀ k ∈ js, k < (l.setOp j op).nodes.size := by
          intro k hk
          simpa using hjs k (by simp [hk])
        have hsame : js.filterMap (l.setOp j op).op? = js.filterMap l.op? := by
          apply List.filterMap_congr
          intro k hk
          rw [op?_setOp hj, if_neg]
          rintro rfl
          exact hnodup.1 hk
        rw [ih hrest hnodup.2, hsame]
      rw [List.foldlM_cons, modifyOpM_eq f hold, bind_map_left]
      simp only [hstep, List.filterMap_cons, hold, List.mapM_cons, map_bind, overwrite,
        bind_pure_comp, Functor.map_map]

/-! ## Visiting a list -/

section Visit

variable {m : Type → Type} [Monad m] [LawfulMonad m]

/-- Visiting a list in place is visiting the sequence of its operations and writing the results
back. -/
theorem Chain.mapM_eq (h : l.Chain is) (f : α → m α) :
    l.mapM f = l.withOps <$> l.toList.mapM f := by
  unfold OpList.mapM withOps toList
  rw [h.indices_eq]
  exact foldlM_modifyOpM_eq f (fun _ hj => h.lt_size hj) h.indices_nodup

theorem Chain.withOps (h : l.Chain is) (ops : List α) : (l.withOps ops).Chain is :=
  h.overwrite l.indices ops

theorem Chain.withOps_toList (h : l.Chain is) : l.withOps l.toList = l :=
  overwrite_filterMap_op? fun _ hj => h.lt_size (h.indices_eq ▸ hj)

theorem Chain.toList_withOps (h : l.Chain is) (ops : List α) :
    (l.withOps ops).toList = overlay l.toList ops := by
  unfold toList
  rw [(h.withOps ops).indices_eq, h.indices_eq]
  unfold OpList.withOps
  rw [h.indices_eq]
  exact filterMap_op?_overwrite (fun _ hj => h.lt_size hj) h.indices_nodup

theorem Chain.toList_withOps_of_length (h : l.Chain is) {ops : List α}
    (hops : ops.length = l.toList.length) : (l.withOps ops).toList = ops := by
  rw [h.toList_withOps, overlay_of_length_eq hops]

theorem Chain.map_eq (h : l.Chain is) (f : α → α) : l.map f = l.withOps (l.toList.map f) := by
  unfold OpList.map
  rw [h.mapM_eq]
  simp

theorem Chain.toList_map (h : l.Chain is) (f : α → α) : (l.map f).toList = l.toList.map f := by
  rw [h.map_eq, h.toList_withOps_of_length (by simp)]

theorem Chain.map (h : l.Chain is) (f : α → α) : (l.map f).Chain is := by
  rw [h.map_eq]
  exact h.withOps _

variable {σ ε : Type} [Stateful m σ ε]

theorem Chain.yields_mapM (h : l.Chain is) {f : α → m α} {l' : OpList α} {s t : σ} :
    Yields (l.mapM f) s l' t ↔
      ∃ ops, Threads (fun s a b t => Yields (f a) s b t) s l.toList ops t ∧
        l' = l.withOps ops := by
  rw [h.mapM_eq, TemplateLowering.yields_map]
  simp only [TemplateLowering.yields_mapM, eq_comm]

end Visit

end TemplateLowering.OpList
