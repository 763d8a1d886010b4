import TemplateLowering.Op.List.Cursor
import TemplateLowering.Job.Basic
import TemplateLowering.Proofs.OpList.Payload

/-!
# Contents of lists

Passes build lists, add operations at their ends, visit them in place and walk along them with a
cursor.  Each of these is described here by what it does to the plain list of operations, so that
proofs about passes need not know of nodes and links.
-/

namespace TemplateLowering

namespace OpList

variable {α : Type} {l l' : OpList α} {ops : List α} {is front back : List Nat} {i : Nat}

/-- The list is linked, and its operations are `ops`. -/
structure Lists (l : OpList α) (ops : List α) : Prop where
  linked : l.Linked
  toList : l.toList = ops

theorem Linked.lists (h : l.Linked) : l.Lists l.toList :=
  ⟨h, rfl⟩

/-! ## Operations of nodes -/

theorem Chain.toList_eq (h : l.Chain is) : l.toList = is.filterMap l.op? := by
  rw [toList, h.indices_eq]

theorem Chain.lists (h : l.Chain is) : l.Lists (is.filterMap l.op?) :=
  ⟨⟨is, h⟩, h.toList_eq⟩

theorem SameArena.filterMap_op? (h : SameArena l l') (js : List Nat) :
    js.filterMap l'.op? = js.filterMap l.op? :=
  List.filterMap_congr fun j _ => h.op? j

theorem filterMap_op?_alloc (op : α) {js : List Nat} (hjs : ∀ j ∈ js, j < l.nodes.size) :
    js.filterMap (l.alloc op).op? = js.filterMap l.op? := by
  apply List.filterMap_congr
  intro j hj
  have hne : j ≠ l.nodes.size := Nat.ne_of_lt (hjs j hj)
  rw [op?_alloc, if_neg hne]

theorem Chain.filterMap_op?_insert (h : l.Chain (front ++ back)) {op : α}
    (hsame : SameArena (l.alloc op) l') :
    (front ++ l.nodes.size :: back).filterMap l'.op? =
      front.filterMap l.op? ++ op :: back.filterMap l.op? := by
  have hfront : ∀ j ∈ front, j < l.nodes.size := fun j hj => h.lt_size (by simp [hj])
  have hback : ∀ j ∈ back, j < l.nodes.size := fun j hj => h.lt_size (by simp [hj])
  have hnew : (l.alloc op).op? l.nodes.size = some op := by rw [op?_alloc, if_pos rfl]
  rw [hsame.filterMap_op?, List.filterMap_append, List.filterMap_cons, hnew,
    filterMap_op?_alloc op hfront, filterMap_op?_alloc op hback]

/-! ## Adding operations at the end -/

theorem Chain.append (h : l.Chain is) (op : α) :
    (l.append op).Chain (is ++ [l.nodes.size]) ∧ SameArena (l.alloc op) (l.append op) := by
  have hend : (l.alloc op).Chain (is ++ []) := by simpa using h.alloc op
  have hout : l.nodes.size ∉ line (is ++ []) := by
    intro hmem
    have hlt : l.nodes.size < l.nodes.size := h.bound _ (by simpa using hmem)
    omega
  have hprev : (l.prev? tailIndex).getD headIndex = is.getLastD headIndex := by
    have hcut : l.Chain (is ++ []) := by simpa using h
    have hprev := hcut.prev?_headD
    rw [List.headD_nil] at hprev
    rw [hprev, Option.getD_some]
  have hlink := hend.link (by simp) hout
  rw [List.headD_nil, ← hprev] at hlink
  exact ⟨hlink, SameArena.linkBetween _ _ _ _⟩

theorem Lists.append (h : l.Lists ops) (op : α) : (l.append op).Lists (ops ++ [op]) := by
  obtain ⟨⟨is, hchain⟩, hops⟩ := h
  obtain ⟨hl', hsame⟩ := hchain.append op
  have hend : l.Chain (is ++ []) := by simpa using hchain
  have hcontent := hend.filterMap_op?_insert hsame
  refine ⟨⟨_, hl'⟩, ?_⟩
  rw [hl'.toList_eq, hcontent, ← hops, hchain.toList_eq, List.filterMap_nil]

theorem Lists.appendAll (h : l.Lists ops) (new : List α) :
    (l.appendAll new).Lists (ops ++ new) := by
  induction new generalizing l ops with
  | nil => simpa [OpList.appendAll] using h
  | cons op new ih => simpa [OpList.appendAll] using ih (h.append op)

variable [ListOp α]

theorem lists_empty (id : ListId) (arena : Nat) : (empty id arena : OpList α).Lists [] :=
  (chain_empty id arena).lists

theorem lists_ofList (id : ListId) (ops : List α) : (ofList id ops).Lists ops := by
  simpa [ofList] using (lists_empty id id.index).appendAll ops

omit [ListOp α] in
theorem id_appendAll (l : OpList α) (ops : List α) : (l.appendAll ops).id = l.id := by
  induction ops generalizing l with
  | nil => rfl
  | cons op ops ih => exact ih (l.append op)

theorem id_ofList (id : ListId) (ops : List α) : (ofList id ops).id = id :=
  id_appendAll _ ops

/-! ## Linking new operations -/

section New

variable {op : α} (hop : ListOp.isListEnd op = false)

include hop

theorem Chain.insertable_new (h : l.Chain is) : (l.alloc op).Insertable [l.opId l.nodes.size] := by
  have hone : ∀ other ∈ [op], ListOp.isListEnd other = false := by simpa using hop
  exact h.insertable_freshIds hone

theorem yields_create_of : Yields (create op) l (l.opId l.nodes.size) (l.alloc op) :=
  yields_create.2 ⟨hop, rfl, rfl⟩

theorem yields_created {link : OpId → Edit α Unit}
    (h : Yields (link (l.opId l.nodes.size)) (l.alloc op) () l') :
    Yields (create op >>= fun id => link id >>= fun _ => pure id) l (l.opId l.nodes.size) l' :=
  yields_bind.2 ⟨_, _, yields_create_of hop,
    yields_bind.2 ⟨_, _, h, yields_pure.2 ⟨rfl, rfl⟩⟩⟩

theorem Chain.insertBefore (h : l.Chain (front ++ back)) :
    ∃ id l', Yields (OpList.insertBefore op (l.opId (back.headD tailIndex))) l id l' ∧
      l'.Chain (front ++ l.nodes.size :: back) ∧ SameArena (l.alloc op) l' := by
  obtain ⟨l', hlink, hl', hsame⟩ := (h.alloc op).insertNodesBefore (h.insertable_new hop)
  exact ⟨_, l', yields_created hop hlink, by simpa using hl', hsame⟩

theorem Chain.insertAfter (h : l.Chain (front ++ back)) :
    ∃ id l', Yields (OpList.insertAfter op (l.opId (front.getLastD headIndex))) l id l' ∧
      l'.Chain (front ++ l.nodes.size :: back) ∧ SameArena (l.alloc op) l' := by
  obtain ⟨l', hlink, hl', hsame⟩ := (h.alloc op).insertNodeAfter (h.insertable_new hop)
  exact ⟨_, l', yields_created hop hlink, hl', hsame⟩

theorem Chain.replace (h : l.Chain (front ++ i :: back))
    (hold : (l.op? i).all ListOp.isListEnd = false) :
    ∃ id l', Yields (OpList.replace (l.opId i) op) l id l' ∧
      l'.Chain (front ++ l.nodes.size :: back) ∧ SameArena (l.alloc op) l' := by
  have hi : i < l.nodes.size := h.lt_size (by simp)
  have hend : (l.alloc op).isEnd i = false := by
    rw [isEnd_iff_of_chain (h.alloc op) (by simp), op?_alloc, if_neg (Nat.ne_of_lt hi)]
    exact hold
  obtain ⟨l', hlink, hl', hsame⟩ := (h.alloc op).replaceNode hend (h.insertable_new hop)
  exact ⟨_, l', yields_created hop hlink, hl', hsame⟩

theorem Chain.prepend (h : l.Chain is) :
    ∃ ids l', Yields (OpList.prepend [op]) l ids l' ∧ l'.Chain (l.nodes.size :: is) ∧
      SameArena (l.alloc op) l' := by
  have hstart : l.Chain ([] ++ is) := by simpa using h
  obtain ⟨l', hlink, hl', hsame⟩ := (hstart.alloc op).insertNodesBefore (h.insertable_new hop)
  have hfirst : ((l.alloc op).next? headIndex).getD tailIndex = is.headD tailIndex := by
    have hnext := (hstart.alloc op).next?_getLastD
    rw [List.getLastD_nil] at hnext
    rw [hnext, Option.getD_some]
  refine ⟨[l.opId l.nodes.size], l', ?_, by simpa using hl', hsame⟩
  have hprepend : Yields (prependNodes [l.opId l.nodes.size]) (l.alloc op) () l' := by
    simp only [prependNodes, List.isEmpty_cons, Bool.false_eq_true, if_false, yields_bind]
    exact ⟨_, _, yields_edit_get.2 ⟨rfl, rfl⟩, hfirst.symm ▸ hlink⟩
  simp only [OpList.prepend, List.mapM_cons, List.mapM_nil, yields_bind, yields_pure]
  exact ⟨_, _, ⟨_, _, yields_create_of hop, [], _, ⟨rfl, rfl⟩, rfl, rfl⟩, (), l', hprepend,
    rfl, rfl⟩

theorem Lists.prepend (h : l.Lists ops) :
    ∃ ids l', Yields (OpList.prepend [op]) l ids l' ∧ l'.Lists (op :: ops) := by
  obtain ⟨⟨is, hchain⟩, hops⟩ := h
  obtain ⟨ids, l', hyields, hl', hsame⟩ := hchain.prepend hop
  have hstart : l.Chain ([] ++ is) := by simpa using hchain
  refine ⟨ids, l', hyields, ⟨_, hl'⟩, ?_⟩
  have hcontent := hstart.filterMap_op?_insert hsame
  rw [List.nil_append] at hcontent
  rw [hl'.toList_eq, hcontent, ← hops, hchain.toList_eq]
  rfl

theorem Chain.push (h : l.Chain is) :
    ∃ id l', Yields (OpList.push op) l id l' ∧ l'.Chain (is ++ [l.nodes.size]) ∧
      SameArena (l.alloc op) l' := by
  have hend : l.Chain (is ++ []) := by simpa using h
  obtain ⟨l', hlink, hl', hsame⟩ := (hend.alloc op).insertNodesBefore (h.insertable_new hop)
  refine ⟨l.opId l.nodes.size, l', ?_, by simpa using hl', hsame⟩
  simp only [OpList.push, pushNode, yields_bind, yields_pure]
  exact ⟨_, _, yields_create_of hop, (), l', ⟨_, _, yields_edit_get.2 ⟨rfl, rfl⟩, hlink⟩, rfl, rfl⟩

theorem Lists.push (h : l.Lists ops) :
    ∃ id l', Yields (OpList.push op) l id l' ∧ l'.Lists (ops ++ [op]) := by
  obtain ⟨⟨is, hchain⟩, hops⟩ := h
  obtain ⟨id, l', hyields, hl', hsame⟩ := hchain.push hop
  have hend : l.Chain (is ++ []) := by simpa using hchain
  refine ⟨id, l', hyields, ⟨_, hl'⟩, ?_⟩
  rw [hl'.toList_eq, hend.filterMap_op?_insert hsame, ← hops, hchain.toList_eq]
  rfl

end New

/-! ## Visiting in place -/

omit [ListOp α] in
theorem Lists.map (h : l.Lists ops) (f : α → α) : (l.map f).Lists (ops.map f) := by
  obtain ⟨⟨is, hchain⟩, hops⟩ := h
  exact ⟨⟨is, hchain.map f⟩, by rw [hchain.toList_map, hops]⟩

omit [ListOp α] in
theorem Lists.yields_mapM {m : Type → Type} [Monad m] [LawfulMonad m] {σ ε : Type}
    [Stateful m σ ε] (h : l.Lists ops) {f : α → m α} {s t : σ} (hyields : Yields (l.mapM f) s l' t) :
    ∃ ops', Threads (fun s a b t => Yields (f a) s b t) s ops ops' t ∧ l'.Lists ops' := by
  obtain ⟨⟨is, hchain⟩, hops⟩ := h
  obtain ⟨ops', hthreads, hl'⟩ := hchain.yields_mapM.1 hyields
  refine ⟨ops', hops ▸ hthreads, hl' ▸ ⟨⟨is, hchain.withOps ops'⟩, ?_⟩⟩
  exact hchain.toList_withOps_of_length hthreads.length_eq

omit [ListOp α] in
theorem Lists.invariant_mapM {m : Type → Type} [Monad m] [LawfulMonad m] {σ ε : Type}
    [Stateful m σ ε] (h : l.Lists ops) {f : α → m α} {R : σ → α → α → σ → Prop} {I : σ → Prop}
    (hf : ∀ op ∈ ops, ∀ s, I s → ∃ op' t, Yields (f op) s op' t ∧ R s op op' t ∧ I t) {s : σ}
    (hs : I s) :
    ∃ l' t ops', Yields (l.mapM f) s l' t ∧ l'.Lists ops' ∧ Threads R s ops ops' t ∧ I t := by
  obtain ⟨⟨is, hchain⟩, hops⟩ := h
  obtain ⟨ops', t, hyields, hthreads, ht⟩ := TemplateLowering.invariant_mapM hf hs
  have hmapM := TemplateLowering.yields_mapM.1 hyields
  refine ⟨_, t, ops', hchain.yields_mapM.2 ⟨ops', hops.symm ▸ hmapM, rfl⟩,
    ⟨⟨is, hchain.withOps ops'⟩, ?_⟩, hthreads, ht⟩
  exact hchain.toList_withOps_of_length (hops.symm ▸ hmapM.length_eq)

omit [ListOp α] in
theorem Lists.total_mapM {m : Type → Type} [Monad m] [LawfulMonad m] {σ ε : Type}
    [Stateful m σ ε] (h : l.Lists ops) {f : α → m α} {R : σ → α → α → σ → Prop}
    (hf : ∀ op ∈ ops, ∀ s, ∃ op' t, Yields (f op) s op' t ∧ R s op op' t) (s : σ) :
    ∃ l' t ops', Yields (l.mapM f) s l' t ∧ l'.Lists ops' ∧ Threads R s ops ops' t := by
  have hinvariant : ∀ op ∈ ops, ∀ s, True →
      ∃ op' t, Yields (f op) s op' t ∧ R s op op' t ∧ True := by
    intro op hop s _
    obtain ⟨op', t, hyields, hR⟩ := hf op hop s
    exact ⟨op', t, hyields, hR, trivial⟩
  obtain ⟨l', t, ops', hyields, hlists, hthreads, -⟩ := h.invariant_mapM hinvariant (s := s) trivial
  exact ⟨l', t, ops', hyields, hlists, hthreads⟩

omit [ListOp α] in
theorem Lists.outcome_mapM_eq_error {m : Type → Type} [Monad m] [LawfulMonad m] {σ ε : Type}
    [Stateful m σ ε] (h : l.Lists ops) {f : α → m α} {s : σ} {e : ε} :
    outcome (l.mapM f) s = .error e ↔ outcome (ops.mapM f) s = .error e := by
  obtain ⟨⟨is, hchain⟩, hops⟩ := h
  rw [hchain.mapM_eq, outcome_map_eq_error, hops]

/-! ## Walking along with changes -/

omit [ListOp α] in
def Change.apply (op : α) : Change α → List α
  | .keep => [op]
  | .replace new => [new]
  | .drop => []

omit [ListOp α] in
theorem Chain.next_cursor (h : l.Chain (front ++ i :: back)) {c : Cursor} (hlist : c.list = l.id)
    (harena : c.arena = l.arena) (hforward : c.reverse = false) (hposition : c.position = some i) :
    c.next l = .ok (some (l.opId i), { c with position := some (back.headD tailIndex) }) := by
  have hne : i ≠ tailIndex := fun heq => h.tailIndex_notMem (by simp [heq])
  have howner := h.owned_of_mem (i := i) (by simp)
  have hnext : l.next? i = some (back.headD tailIndex) := by
    have hcut : l.Chain ((front ++ [i]) ++ back) := by simpa using h
    simpa using hcut.next?_getLastD
  simp [Cursor.next, hlist, harena, hforward, hposition, hne, howner, hnext]

omit [ListOp α] in
theorem next_cursor_tail {c : Cursor} (hlist : c.list = l.id) (harena : c.arena = l.arena)
    (hforward : c.reverse = false) (hposition : c.position = some tailIndex) :
    c.next l = .ok (none, { c with position := none }) := by
  simp [Cursor.next, hlist, harena, hforward, hposition]

section Walk

variable {ε : Type} {f : α → Except ε (Change α)}

theorem Chain.applyChange (h : l.Chain (front ++ i :: back)) {op : α} {change : Change α}
    (hop : l.op? i = some op) (hold : ListOp.isListEnd op = true → change = .keep)
    (hnew : ∀ new, change = .replace new → ListOp.isListEnd new = false) :
    ∃ l' new, l.applyChange (l.opId i) change = .ok l' ∧ l'.Chain (front ++ new ++ back) ∧
      new.filterMap l'.op? = change.apply op ∧
      (∀ j < l.nodes.size, l'.op? j = l.op? j) ∧ l.nodes.size ≤ l'.nodes.size ∧
      l'.id = l.id ∧ l'.arena = l.arena := by
  have hend : change ≠ .keep → (l.op? i).all ListOp.isListEnd = false := by
    intro hchange
    simpa [hop] using mt hold hchange
  cases change with
  | keep =>
    refine ⟨l, [i], rfl, by simpa using h, ?_, fun _ _ => rfl, Nat.le_refl _, rfl, rfl⟩
    simp [hop, Change.apply]
  | replace new =>
    obtain ⟨id, l', hyields, hl', hsame⟩ := h.replace (hnew new rfl) (hend (by simp))
    have hsize : (l.alloc new).op? l.nodes.size = some new := by rw [op?_alloc, if_pos rfl]
    refine ⟨l', [l.nodes.size], ?_, by simpa using hl', ?_, ?_, ?_, hsame.id, hsame.arena⟩
    · rw [OpList.applyChange, exec_eq_ok_iff.2 hyields]
      rfl
    · simp [hsame.op?, hsize, Change.apply]
    · intro j hj
      rw [hsame.op?, op?_alloc, if_neg (Nat.ne_of_lt hj)]
    · rw [hsame.size, nodes_size_alloc]
      omega
  | drop =>
    have hend' : l.isEnd i = false := by
      rw [isEnd_iff_of_chain h (by simp)]
      exact hend (by simp)
    obtain ⟨l', hyields, hl', hsame⟩ := h.remove hend'
    refine ⟨l', [], ?_, by simpa using hl', rfl, fun j _ => hsame.op? j, ?_, hsame.id,
      hsame.arena⟩
    · rw [OpList.applyChange, exec_eq_ok_iff.2 hyields]
      rfl
    · rw [hsame.size]

def changed (f : α → Except ε (Change α)) (op : α) : Except ε (List α) :=
  (·.apply op) <$> f op

/-- From a cut on, a walk makes of the operations behind the cut what `f` says, and fails where `f`
fails first. -/
theorem Chain.walk (h : l.Chain (front ++ back)) (onFault : Fault → ε) {c : Cursor} {fuel : Nat}
    (hlist : c.list = l.id) (harena : c.arena = l.arena) (hforward : c.reverse = false)
    (hposition : c.position = some (back.headD tailIndex)) (hfuel : back.length < fuel)
    (hends : ∀ op ∈ back.filterMap l.op?, ListOp.isListEnd op = true → f op = .ok .keep)
    (hnew : ∀ op new, f op = .ok (.replace new) → ListOp.isListEnd new = false) :
    match (back.filterMap l.op?).mapM (changed f) with
    | .error e => OpList.walk onFault f fuel c l = .error e
    | .ok parts => ∃ l', OpList.walk onFault f fuel c l = .ok l' ∧
        l'.Lists (front.filterMap l.op? ++ parts.flatten) ∧ l'.id = l.id := by
  induction back generalizing l front c fuel with
  | nil =>
    obtain ⟨fuel, rfl⟩ := Nat.exists_eq_succ_of_ne_zero (Nat.ne_of_gt hfuel)
    have hnext := next_cursor_tail hlist harena hforward hposition
    refine ⟨l, ?_, by simpa using h.lists, rfl⟩
    rw [OpList.walk, hnext]
    rfl
  | cons i back ih =>
    obtain ⟨fuel, rfl⟩ := Nat.exists_eq_succ_of_ne_zero (Nat.ne_of_gt (Nat.zero_lt_of_lt hfuel))
    obtain ⟨op, hop⟩ := h.exists_op? (i := i) (by simp)
    have hnext := h.next_cursor hlist harena hforward hposition
    have hget : l.get? (l.opId i) = some op := by simp [get?, hop]
    have hops : (i :: back).filterMap l.op? = op :: back.filterMap l.op? := by simp [hop]
    rw [hops, List.mapM_cons]
    have hwalk : OpList.walk onFault f (fuel + 1) c l =
        f op >>= fun change => (l.applyChange (l.opId i) change).mapError onFault >>= fun l' =>
          OpList.walk onFault f fuel { c with position := some (back.headD tailIndex) } l' := by
      rw [OpList.walk, hnext]
      simp only [Except.mapError, Except.bind, bind, hget]
    rw [hwalk]
    cases hf : f op with
    | error e => simp [changed, hf, bind, Except.bind, Functor.map, Except.map]
    | ok change =>
      have hreplace : ∀ new, change = .replace new → ListOp.isListEnd new = false := by
        intro new hchange
        exact hnew op new (by rw [hf, hchange])
      obtain ⟨l', new, happly, hl', hnewops, hkeep, hsize, hid, harena'⟩ :=
        h.applyChange hop
          (fun hend => Except.ok.inj (hf.symm.trans (hends op (by simp [hops]) hend))) hreplace
      have hsame : ∀ js : List Nat, (∀ j ∈ js, j ∈ front ++ i :: back) →
          js.filterMap l'.op? = js.filterMap l.op? := fun js hjs =>
        List.filterMap_congr fun j hj => hkeep j (h.lt_size (hjs j hj))
      have hfront := hsame front fun j hj => by simp [hj]
      have hback := hsame back fun j hj => by simp [hj]
      have hrest := ih hl' (c := { c with position := some (back.headD tailIndex) })
        (hlist.trans hid.symm) (harena.trans harena'.symm) hforward rfl (Nat.lt_of_succ_lt_succ hfuel)
        (fun other hmem => hends other (by rw [hops]; simp [← hback, hmem]))
      rw [hback, List.filterMap_append, hfront, hnewops, hid] at hrest
      have hchanged : changed f op = .ok (change.apply op) := by rw [changed, hf]; rfl
      rw [hchanged]
      simp only [happly, Except.mapError, bind, Except.bind, pure, Except.pure] at hrest ⊢
      cases hmap : (back.filterMap l.op?).mapM (changed f) with
      | error e => simpa only [hmap] using hrest
      | ok parts => simpa [hmap] using hrest

/-- Changing every operation of a list: the result holds what `f` makes of the operations, in order,
and the first failure of `f` is the failure of the walk. -/
theorem Lists.changeAll (h : l.Lists ops) (onFault : Fault → ε)
    (hends : ∀ op ∈ ops, ListOp.isListEnd op = true → f op = .ok .keep)
    (hnew : ∀ op new, f op = .ok (.replace new) → ListOp.isListEnd new = false) :
    match ops.mapM (changed f) with
    | .error e => l.changeAll onFault f = .error e
    | .ok parts => ∃ l', l.changeAll onFault f = .ok l' ∧ l'.Lists parts.flatten ∧
        l'.id = l.id := by
  obtain ⟨⟨is, hchain⟩, hops⟩ := h
  have hstart : l.Chain ([] ++ is) := by simpa using hchain
  have hposition : l.cursor.position = some (is.headD tailIndex) := by
    have hnext := hstart.next?_getLastD
    rwa [List.getLastD_nil] at hnext
  have hfuel : is.length < l.nodes.size + 1 := by
    have hlength := hchain.line_length_le
    omega
  have his : is.filterMap l.op? = ops := by rw [← hchain.toList_eq, hops]
  have hwalk := hstart.walk onFault (c := l.cursor) (f := f) rfl rfl rfl hposition hfuel
    (his ▸ hends) hnew
  rw [his] at hwalk
  exact hwalk

theorem Chain.walk_keep (h : l.Chain (front ++ back)) (onFault : Fault → ε) {c : Cursor}
    {fuel : Nat} (hlist : c.list = l.id) (harena : c.arena = l.arena)
    (hforward : c.reverse = false) (hposition : c.position = some (back.headD tailIndex))
    (hkeep : ∀ op ∈ back.filterMap l.op?, f op = .ok .keep) :
    OpList.walk onFault f fuel c l = .ok l := by
  induction back generalizing front c fuel with
  | nil =>
    cases fuel with
    | zero => rfl
    | succ fuel =>
      rw [OpList.walk, next_cursor_tail hlist harena hforward hposition]
      rfl
  | cons i back ih =>
    cases fuel with
    | zero => rfl
    | succ fuel =>
      obtain ⟨op, hop⟩ := h.exists_op? (i := i) (by simp)
      have hget : l.get? (l.opId i) = some op := by simp [get?, hop]
      have hcut : l.Chain ((front ++ [i]) ++ back) := by simpa using h
      rw [List.filterMap_cons, hop] at hkeep
      rw [OpList.walk, h.next_cursor hlist harena hforward hposition]
      simp only [Except.mapError, bind, Except.bind, hget, hkeep op List.mem_cons_self,
        OpList.applyChange]
      exact ih hcut hlist harena hforward rfl fun op hmem => hkeep op (List.mem_cons_of_mem _ hmem)

theorem Linked.changeAll_keep (h : l.Linked) (onFault : Fault → ε)
    (hkeep : ∀ op ∈ l.toList, f op = .ok .keep) : l.changeAll onFault f = .ok l := by
  obtain ⟨is, hchain⟩ := h
  have hstart : l.Chain ([] ++ is) := hchain
  have hposition : l.cursor.position = some (is.headD tailIndex) := by
    have hnext := hstart.next?_getLastD
    rwa [List.getLastD_nil] at hnext
  rw [hchain.toList_eq] at hkeep
  exact hstart.walk_keep onFault rfl rfl rfl hposition hkeep

end Walk

end OpList

theorem editList_eq_ok {α β : Type} {l l' : OpList α} {edit : OpList.Edit α β} {result : β}
    (h : Yields edit l result l') : editList l edit = .ok l' := by
  have hexec := OpList.exec_eq_ok_iff.2 h
  unfold OpList.Edit.exec at hexec
  unfold editList
  generalize edit.run l = run at hexec
  obtain ⟨value | fault, l''⟩ := run
  · simp at hexec
  · simp only [Except.ok.injEq, Prod.mk.injEq] at hexec
    simp only [hexec.2]

end TemplateLowering
