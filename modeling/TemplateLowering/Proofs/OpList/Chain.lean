import Mathlib.Data.List.Nodup
import Mathlib.Tactic
import TemplateLowering.Op.List.Edit

/-!
# The chain of a list

`Chain l is` says that the nodes `is`, in this order, are what lies between the sentinels of `l`: the
forward links of all nodes are the successors in the line from head to tail, the back links are the
predecessors, exactly the nodes of the line are owned, and `len` counts them.  Linking a detached
node adds it to the sequence at its place, and unlinking a node takes it out; every operation on
lists is made of these two.
-/

namespace TemplateLowering.OpList

variable {back front : List Nat} {fuel i n p : Nat}

/-! ## Successors in a sequence -/

/-- The element that follows the first occurrence of `i`. -/
def nextIn : List Nat → Nat → Option Nat
  | [], _ => none
  | a :: rest, i => if i = a then rest.head? else nextIn rest i

theorem nextIn_of_not_mem {line : List Nat} (h : i ∉ line) : nextIn line i = none := by
  induction line with
  | nil => rfl
  | cons a rest ih =>
      simp only [List.mem_cons, not_or] at h
      simp [nextIn, h.1, ih h.2]

theorem nextIn_append_cons (h : i ∉ front) : nextIn (front ++ i :: back) i = back.head? := by
  induction front with
  | nil => simp [nextIn]
  | cons a rest ih =>
      simp only [List.mem_cons, not_or] at h
      simp [nextIn, h.1, ih h.2]

theorem head?_append_cons_congr {back' : List Nat} :
    (front ++ p :: back).head? = (front ++ p :: back').head? := by
  cases front <;> rfl

theorem nextIn_insert (h : (front ++ p :: i :: n :: back).Nodup) (j : Nat) :
    nextIn (front ++ p :: i :: n :: back) j =
      if j = i then some n
      else if j = p then some i
      else nextIn (front ++ p :: n :: back) j := by
  induction front with
  | nil =>
      have hpi : i ≠ p := by
        rintro rfl
        simp at h
      by_cases hji : j = i
      · subst hji
        simp [nextIn, hpi]
      · by_cases hjp : j = p
        · simp [nextIn, hjp, hpi.symm]
        · simp [nextIn, hji, hjp]
  | cons a front ih =>
      simp only [List.cons_append, List.nodup_cons, List.mem_append, List.mem_cons,
        not_or] at h
      obtain ⟨⟨-, hap, hai, -, -⟩, hrest⟩ := h
      by_cases hja : j = a
      · subst hja
        simp only [List.cons_append, nextIn, if_true, if_neg hai, if_neg hap]
        exact head?_append_cons_congr
      · simp only [List.cons_append, nextIn, if_neg hja]
        exact ih hrest

theorem nextIn_erase (h : (front ++ p :: i :: n :: back).Nodup) (j : Nat) :
    nextIn (front ++ p :: n :: back) j =
      if j = i then none
      else if j = p then some n
      else nextIn (front ++ p :: i :: n :: back) j := by
  have hout : i ∉ front ++ p :: n :: back := by
    grind
  have hfront : p ∉ front := by
    grind
  by_cases hji : j = i
  · subst hji
    rw [if_pos rfl]
    exact nextIn_of_not_mem hout
  · by_cases hjp : j = p
    · subst hjp
      rw [if_neg hji, if_pos rfl, nextIn_append_cons hfront]
      rfl
    · rw [nextIn_insert h]
      simp [hji, hjp]

/-! ## Chained nodes -/

variable {α : Type}

/-- The nodes of a chain with the sentinels at its ends. -/
def line (is : List Nat) : List Nat :=
  headIndex :: (is ++ [tailIndex])

/-- The nodes `is`, in this order, are the chain of the list. -/
structure Chain (l : OpList α) (is : List Nat) : Prop where
  nodup : (line is).Nodup
  bound : ∀ i ∈ line is, i < l.nodes.size
  next : ∀ i, l.next? i = nextIn (line is) i
  prev : ∀ i, l.prev? i = nextIn (line is).reverse i
  owner : ∀ i, l.owner? i = if i ∈ line is then some l.id else none
  len : l.len = is.length

/-- Some nodes form the chain of the list. -/
def Linked (l : OpList α) : Prop :=
  ∃ is, l.Chain is

theorem chain_empty [ListOp α] (id : ListId) (arena : Nat) :
    (empty id arena : OpList α).Chain [] := by
  constructor
  · simp [line]
  · intro i hi
    simp only [line, List.nil_append, List.mem_cons, List.not_mem_nil, or_false] at hi
    rcases hi with rfl | rfl <;> simp [empty]
  · rintro (_ | _ | i) <;> simp [empty, next?, line, nextIn]
  · rintro (_ | _ | i) <;> simp [empty, prev?, line, nextIn]
  · rintro (_ | _ | i) <;> simp [empty, owner?, line]
  · rfl

/-- The line of a chain at a cut, forth and back, with any nodes put there. -/
theorem exists_line_cut (front back : List Nat) :
    ∃ xs ys, ∀ middle,
      line (front ++ (middle ++ back)) =
          xs ++ front.getLastD headIndex :: (middle ++ back.headD tailIndex :: ys) ∧
        (line (front ++ (middle ++ back))).reverse =
          ys.reverse ++
            back.headD tailIndex :: (middle.reverse ++ front.getLastD headIndex :: xs.reverse) := by
  have hfront : headIndex :: front =
      (headIndex :: front).dropLast ++ [front.getLastD headIndex] := by
    have hlast : (headIndex :: front).getLast (by simp) = front.getLastD headIndex := by
      rw [List.getLast_eq_getLastD]
    rw [← hlast, List.dropLast_append_getLast]
  have hback : back ++ [tailIndex] = back.headD tailIndex :: (back ++ [tailIndex]).tail := by
    cases back <;> rfl
  refine ⟨(headIndex :: front).dropLast, (back ++ [tailIndex]).tail, fun middle => ?_⟩
  have hline : line (front ++ (middle ++ back)) =
      (headIndex :: front) ++ (middle ++ (back ++ [tailIndex])) := by
    simp [line]
  rw [hline, hfront, hback]
  simp

/-! ## Links after an edit -/

section Links

variable {l : OpList α} {i p n : Nat}

@[simp] theorem nodes_size_linkBetween : (l.linkBetween i p n).nodes.size = l.nodes.size := by
  simp [linkBetween]

@[simp] theorem nodes_size_unlinkBetween : (l.unlinkBetween i p n).nodes.size = l.nodes.size := by
  simp [unlinkBetween]

@[simp] theorem op?_linkBetween (j : Nat) : (l.linkBetween i p n).op? j = l.op? j := by
  simp only [linkBetween, op?, Array.getElem?_modify]
  cases l.nodes[j]? <;> split_ifs <;> simp

@[simp] theorem op?_unlinkBetween (j : Nat) : (l.unlinkBetween i p n).op? j = l.op? j := by
  simp only [unlinkBetween, op?, Array.getElem?_modify]
  cases l.nodes[j]? <;> split_ifs <;> simp

theorem next?_linkBetween (hi : i < l.nodes.size) (hp : p < l.nodes.size) (j : Nat) :
    (l.linkBetween i p n).next? j =
      if j = i then some n else if j = p then some i else l.next? j := by
  simp only [linkBetween, next?, Array.getElem?_modify]
  by_cases hji : j = i
  · subst hji
    simp [hi]
    split_ifs <;> simp
  · by_cases hjp : j = p
    · subst hjp
      simp [hp, Ne.symm hji, hji]
      split_ifs <;> simp
    · simp only [Ne.symm hji, Ne.symm hjp, hji, hjp, if_false]
      cases l.nodes[j]? <;> split_ifs <;> simp

theorem prev?_linkBetween (hi : i < l.nodes.size) (hn : n < l.nodes.size) (j : Nat) :
    (l.linkBetween i p n).prev? j =
      if j = i then some p else if j = n then some i else l.prev? j := by
  simp only [linkBetween, prev?, Array.getElem?_modify]
  by_cases hji : j = i
  · subst hji
    simp [hi]
    split_ifs <;> simp
  · by_cases hjn : j = n
    · subst hjn
      simp [hn, Ne.symm hji, hji]
      split_ifs <;> simp
    · simp only [Ne.symm hji, Ne.symm hjn, hji, hjn, if_false]
      cases l.nodes[j]? <;> split_ifs <;> simp

theorem owner?_linkBetween (hi : i < l.nodes.size) (j : Nat) :
    (l.linkBetween i p n).owner? j = if j = i then some l.id else l.owner? j := by
  simp only [linkBetween, owner?, Array.getElem?_modify]
  by_cases hji : j = i
  · subst hji
    simp [hi]
    split_ifs <;> simp
  · simp only [Ne.symm hji, hji, if_false]
    cases l.nodes[j]? <;> split_ifs <;> simp

theorem next?_unlinkBetween (hi : i < l.nodes.size) (hp : p < l.nodes.size) (j : Nat) :
    (l.unlinkBetween i p n).next? j =
      if j = i then none else if j = p then some n else l.next? j := by
  simp only [unlinkBetween, next?, Array.getElem?_modify]
  by_cases hji : j = i
  · subst hji
    simp [hi]
  · by_cases hjp : j = p
    · subst hjp
      simp [hp, Ne.symm hji, hji]
      split_ifs <;> simp
    · simp only [Ne.symm hji, Ne.symm hjp, hji, hjp, if_false]
      cases l.nodes[j]? <;> split_ifs <;> simp

theorem prev?_unlinkBetween (hi : i < l.nodes.size) (hn : n < l.nodes.size) (j : Nat) :
    (l.unlinkBetween i p n).prev? j =
      if j = i then none else if j = n then some p else l.prev? j := by
  simp only [unlinkBetween, prev?, Array.getElem?_modify]
  by_cases hji : j = i
  · subst hji
    simp [hi]
  · by_cases hjn : j = n
    · subst hjn
      simp [hn, Ne.symm hji, hji]
      split_ifs <;> simp
    · simp only [Ne.symm hji, Ne.symm hjn, hji, hjn, if_false]
      cases l.nodes[j]? <;> split_ifs <;> simp

theorem owner?_unlinkBetween (hi : i < l.nodes.size) (j : Nat) :
    (l.unlinkBetween i p n).owner? j = if j = i then none else l.owner? j := by
  simp only [unlinkBetween, owner?, Array.getElem?_modify]
  by_cases hji : j = i
  · subst hji
    simp [hi]
  · simp only [Ne.symm hji, hji, if_false]
    cases l.nodes[j]? <;> split_ifs <;> simp

theorem next?_alloc (op : α) (j : Nat) : (l.alloc op).next? j = l.next? j := by
  simp only [alloc, next?, Array.getElem?_push]
  split_ifs with hj
  · subst hj
    simp
  · rfl

theorem prev?_alloc (op : α) (j : Nat) : (l.alloc op).prev? j = l.prev? j := by
  simp only [alloc, prev?, Array.getElem?_push]
  split_ifs with hj
  · subst hj
    simp
  · rfl

theorem owner?_alloc (op : α) (j : Nat) : (l.alloc op).owner? j = l.owner? j := by
  simp only [alloc, owner?, Array.getElem?_push]
  split_ifs with hj
  · subst hj
    simp
  · rfl

theorem op?_alloc (op : α) (j : Nat) :
    (l.alloc op).op? j = if j = l.nodes.size then some op else l.op? j := by
  simp only [alloc, op?, Array.getElem?_push]
  split_ifs <;> rfl

@[simp] theorem nodes_size_alloc (op : α) : (l.alloc op).nodes.size = l.nodes.size + 1 := by
  simp [alloc]

end Links

namespace Chain

variable {l : OpList α} {is front back : List Nat} {i : Nat}

/-! ## Reading a chain -/

theorem mem_line {is : List Nat} : i ∈ line is ↔ i = headIndex ∨ i ∈ is ∨ i = tailIndex := by
  simp [line]

theorem headIndex_notMem (h : l.Chain is) : headIndex ∉ is := by
  have hnodup := h.nodup
  simp only [line, List.nodup_cons, List.mem_append, not_or] at hnodup
  exact hnodup.1.1

theorem tailIndex_notMem (h : l.Chain is) : tailIndex ∉ is := by
  have hnodup := h.nodup
  simp only [line, List.nodup_cons] at hnodup
  intro hmem
  exact (List.nodup_append.1 hnodup.2).2.2 tailIndex hmem tailIndex (by simp) rfl

theorem indices_nodup (h : l.Chain is) : is.Nodup := by
  have hnodup := h.nodup
  simp only [line, List.nodup_cons] at hnodup
  exact (List.nodup_append.1 hnodup.2).1

theorem lt_size (h : l.Chain is) (hi : i ∈ is) : i < l.nodes.size :=
  h.bound i (mem_line.2 (.inr (.inl hi)))

theorem exists_op? (h : l.Chain is) (hi : i ∈ is) : ∃ op, l.op? i = some op := by
  have hlt := h.lt_size hi
  exact ⟨_, by simp [OpList.op?, hlt]; rfl⟩

theorem owned_iff (h : l.Chain is) : l.owner? i = some l.id ↔ i ∈ line is := by
  rw [h.owner i]
  split_ifs with hi <;> simp [hi]

theorem unowned_iff (h : l.Chain is) : l.owner? i = none ↔ i ∉ line is := by
  rw [h.owner i]
  split_ifs with hi <;> simp [hi]

theorem next?_getLastD (h : l.Chain (front ++ back)) :
    l.next? (front.getLastD headIndex) = some (back.headD tailIndex) := by
  obtain ⟨xs, ys, hcut⟩ := exists_line_cut front back
  obtain ⟨hline, -⟩ := hcut []
  simp only [List.nil_append] at hline
  have hnodup := h.nodup
  rw [hline] at hnodup
  rw [h.next, hline, nextIn_append_cons (by grind)]
  rfl

theorem prev?_headD (h : l.Chain (front ++ back)) :
    l.prev? (back.headD tailIndex) = some (front.getLastD headIndex) := by
  obtain ⟨xs, ys, hcut⟩ := exists_line_cut front back
  obtain ⟨-, hline⟩ := hcut []
  simp only [List.nil_append, List.reverse_nil] at hline
  have hnodup := List.nodup_reverse.2 h.nodup
  rw [hline] at hnodup
  rw [h.prev, hline, nextIn_append_cons (by grind)]
  rfl

/-! ## Editing a chain -/

theorem link (h : l.Chain (front ++ back)) (hi : i < l.nodes.size)
    (hout : i ∉ line (front ++ back)) :
    (l.linkBetween i (front.getLastD headIndex) (back.headD tailIndex)).Chain
      (front ++ i :: back) := by
  obtain ⟨xs, ys, hcut⟩ := exists_line_cut front back
  obtain ⟨hold, hrevOld⟩ := hcut []
  obtain ⟨hnew, hrevNew⟩ := hcut [i]
  simp only [List.nil_append, List.cons_append, List.reverse_nil, List.reverse_singleton]
    at hold hnew hrevOld hrevNew
  clear hcut
  have hnodup := h.nodup
  have hbound := h.bound
  rw [hold] at hnodup hbound hout
  have hp : front.getLastD headIndex < l.nodes.size := hbound _ (by simp)
  have hn : back.headD tailIndex < l.nodes.size := hbound _ (by simp)
  have hnewNodup : (line (front ++ i :: back)).Nodup := by
    rw [hnew]
    grind
  have hrevNodup := List.nodup_reverse.2 hnewNodup
  rw [hrevNew] at hrevNodup
  constructor
  · exact hnewNodup
  · rw [hnew, nodes_size_linkBetween]
    intro j hj
    by_cases hji : j = i
    · exact hji ▸ hi
    · exact hbound j (by grind)
  · intro j
    rw [next?_linkBetween hi hp, hnew, nextIn_insert (hnew ▸ hnewNodup), h.next, hold]
  · intro j
    rw [prev?_linkBetween hi hn, hrevNew, nextIn_insert hrevNodup, h.prev, hrevOld]
  · intro j
    rw [owner?_linkBetween hi, h.owner, hold, hnew]
    show _ = if _ then some l.id else none
    by_cases hji : j = i
    · simp [hji]
    · simp [hji]
  · simp only [linkBetween, h.len, List.length_append, List.length_cons]
    omega

theorem unlink (h : l.Chain (front ++ i :: back)) :
    (l.unlinkBetween i (front.getLastD headIndex) (back.headD tailIndex)).Chain
      (front ++ back) := by
  obtain ⟨xs, ys, hcut⟩ := exists_line_cut front back
  obtain ⟨hnew, hrevNew⟩ := hcut []
  obtain ⟨hold, hrevOld⟩ := hcut [i]
  simp only [List.nil_append, List.cons_append, List.reverse_nil, List.reverse_singleton]
    at hold hnew hrevOld hrevNew
  clear hcut
  have hnodup := h.nodup
  have hrevNodup := List.nodup_reverse.2 hnodup
  have hbound := h.bound
  rw [hold] at hnodup hbound
  rw [hrevOld] at hrevNodup
  have hp : front.getLastD headIndex < l.nodes.size := hbound _ (by simp)
  have hn : back.headD tailIndex < l.nodes.size := hbound _ (by simp)
  have hi : i < l.nodes.size := hbound _ (by simp)
  constructor
  · rw [hnew]
    grind
  · rw [hnew, nodes_size_unlinkBetween]
    intro j hj
    exact hbound j (by grind)
  · intro j
    rw [next?_unlinkBetween hi hp, hnew, nextIn_erase hnodup, h.next, hold]
  · intro j
    rw [prev?_unlinkBetween hi hn, hrevNew, nextIn_erase hrevNodup, h.prev, hrevOld]
  · intro j
    rw [owner?_unlinkBetween hi, h.owner, hold, hnew]
    show _ = if _ then some l.id else none
    by_cases hji : j = i
    · subst hji
      have hout : j ∉ xs ++ front.getLastD headIndex :: back.headD tailIndex :: ys := by
        grind
      simp only [if_true, if_neg hout]
    · simp [hji]
  · simp only [unlinkBetween, h.len, List.length_append, List.length_cons]
    omega

theorem alloc (h : l.Chain is) (op : α) : (l.alloc op).Chain is := by
  constructor
  · exact h.nodup
  · intro j hj
    rw [nodes_size_alloc]
    exact Nat.lt_succ_of_lt (h.bound j hj)
  · intro j
    rw [next?_alloc, h.next]
  · intro j
    rw [prev?_alloc, h.prev]
  · intro j
    rw [owner?_alloc, h.owner]
    rfl
  · exact h.len

/-! ## Walking along a chain -/

theorem follow_eq {step : Nat → Option Nat} {stop : Nat} {xs : List Nat} (hstop : stop ∉ xs)
    (hfuel : xs.length < fuel)
    (hstep : ∀ front i back, xs = front ++ i :: back → step i = (back ++ [stop]).head?) :
    follow step stop fuel (xs ++ [stop]).head? = xs := by
  induction xs generalizing fuel with
  | nil =>
      cases fuel with
      | zero => simp at hfuel
      | succ fuel => simp [follow]
  | cons i xs ih =>
      cases fuel with
      | zero => simp at hfuel
      | succ fuel =>
          simp only [List.mem_cons, not_or] at hstop
          have hnext := hstep [] i xs rfl
          simp only [List.cons_append, List.head?_cons, follow, if_neg (Ne.symm hstop.1), hnext]
          rw [ih hstop.2 (by simpa using hfuel)]
          intro front j back hxs
          exact hstep (i :: front) j back (by simp [hxs])

theorem line_length_le (h : l.Chain is) : is.length + 2 ≤ l.nodes.size := by
  have hsub : line is ⊆ List.range l.nodes.size := by
    intro i hi
    exact List.mem_range.2 (h.bound i hi)
  have hle := (h.nodup.subperm hsub).length_le
  simp only [line, List.length_cons, List.length_append, List.length_range] at hle
  exact hle

theorem indices_eq (h : l.Chain is) : l.indices = is := by
  have hfirst : l.next? headIndex = (is ++ [tailIndex]).head? := by
    rw [h.next]
    simp [line, nextIn]
  unfold indices
  rw [hfirst]
  apply follow_eq h.tailIndex_notMem
  · have := h.line_length_le
    omega
  · rintro front i back rfl
    have hcut : l.Chain ((front ++ [i]) ++ back) := by simpa using h
    have hnext := hcut.next?_getLastD
    cases back <;> simpa using hnext

theorem indicesRev_eq (h : l.Chain is) : l.indicesRev = is.reverse := by
  have hfirst : l.prev? tailIndex = (is.reverse ++ [headIndex]).head? := by
    rw [h.prev]
    simp [line, nextIn]
  unfold indicesRev
  rw [hfirst]
  apply follow_eq
  · simpa using h.headIndex_notMem
  · have := h.line_length_le
    simp
    omega
  · intro front i back hrev
    have his : is = back.reverse ++ i :: front.reverse := by
      rw [← List.reverse_reverse is, hrev]
      simp
    subst his
    have hprev := h.prev?_headD
    cases back <;> simpa using hprev

/-! ## Consistency -/

/-- Following the links from a node of the chain visits the rest of it and finds nothing wrong. -/
theorem checkChain_eq (h : l.Chain is) {middle : List Nat} {current : Nat}
    (hline : line is = front ++ current :: (middle ++ [tailIndex]))
    (hfuel : middle.length + 2 ≤ fuel) (count : Nat) :
    l.checkChain fuel current (front ++ [current]).reverse count =
      .ok ((line is).reverse, count + middle.length) := by
  induction middle generalizing front current fuel count with
  | nil =>
      obtain ⟨fuel, rfl⟩ : ∃ k, fuel = k + 2 := ⟨fuel - 2, by simp at hfuel; omega⟩
      have hnodup := h.nodup
      rw [hline] at hnodup
      have hcurrent : current ≠ tailIndex := by
        rintro rfl
        simp [List.nodup_append] at hnodup
      have hfresh : tailIndex ∉ (front ++ [current]).reverse := by
        grind
      have hnext : l.next? current = some tailIndex := by
        rw [h.next, hline, nextIn_append_cons (by grind)]
        rfl
      have hprev : l.prev? tailIndex = some current := by
        rw [h.prev, hline]
        simp [nextIn]
      have howner : l.owner? tailIndex = some l.id :=
        h.owned_iff.2 (mem_line.2 (.inr (.inr rfl)))
      simp only [checkChain, if_neg hcurrent, hnext, if_neg hfresh, hprev, howner, ne_eq,
        not_true_eq_false, if_false, if_true]
      rw [hline]
      simp
  | cons next middle ih =>
      obtain ⟨fuel, rfl⟩ : ∃ k, fuel = k + 1 := ⟨fuel - 1, by simp at hfuel; omega⟩
      have hnodup := h.nodup
      rw [hline] at hnodup
      have hcurrent : current ≠ tailIndex := by
        grind
      have hnextTail : next ≠ tailIndex := by
        grind
      have hfresh : next ∉ (front ++ [current]).reverse := by
        grind
      have hnext : l.next? current = some next := by
        rw [h.next, hline, nextIn_append_cons (by grind)]
        rfl
      have hrev : (line is).reverse =
          (middle ++ [tailIndex]).reverse ++ next :: current :: front.reverse := by
        rw [hline]
        simp
      have hprev : l.prev? next = some current := by
        rw [h.prev, hrev, nextIn_append_cons (by grind)]
        rfl
      have howner : l.owner? next = some l.id := by
        rw [h.owned_iff, hline]
        simp
      have hline' : line is = (front ++ [current]) ++ next :: (middle ++ [tailIndex]) := by
        rw [hline]
        simp
      have hrest :
          l.checkChain fuel next ((front ++ [current]) ++ [next]).reverse (count + 1) =
            .ok ((line is).reverse, count + 1 + middle.length) := by
        apply ih hline'
        simp at hfuel
        omega
      simp only [List.reverse_append, List.reverse_cons, List.reverse_nil, List.nil_append,
        List.cons_append] at hrest
      simp only [checkChain, if_neg hcurrent, hnext, if_neg hfresh, hprev, howner, ne_eq,
        not_true_eq_false, if_false, if_neg hnextTail]
      simp only [List.reverse_append, List.reverse_cons, List.reverse_nil, List.nil_append,
        List.cons_append]
      rw [hrest, List.length_cons]
      congr 2
      omega

theorem isDetached_of_notMem (h : l.Chain is) (hi : i ∉ line is) : l.isDetached i = true := by
  have howner := h.unowned_iff.2 hi
  have hnext : l.next? i = none := by
    rw [h.next]
    exact nextIn_of_not_mem hi
  have hprev : l.prev? i = none := by
    rw [h.prev]
    exact nextIn_of_not_mem (by simpa using hi)
  simp [isDetached, howner, hnext, hprev]

theorem assertConsistent_eq_ok (h : l.Chain is) : l.assertConsistent = .ok () := by
  have hcheck : l.checkChain (l.nodes.size + 1) headIndex [headIndex] 0 =
      .ok ((line is).reverse, is.length) := by
    have hline : line is = [] ++ headIndex :: (is ++ [tailIndex]) := rfl
    have hfuel : is.length + 2 ≤ l.nodes.size + 1 := Nat.le_succ_of_le h.line_length_le
    simpa using h.checkChain_eq hline hfuel 0
  have hdetached :
      (List.range l.nodes.size).find?
        (fun i => !((line is).reverse.contains i) && !(l.isDetached i)) = none := by
    rw [List.find?_eq_none]
    intro i _
    by_cases hi : i ∈ line is
    · simp [hi]
    · simp [h.isDetached_of_notMem hi]
  simp only [assertConsistent, hcheck, bind, Except.bind, h.len, ne_eq, not_true_eq_false,
    if_false, hdetached]
  rfl

end Chain

end TemplateLowering.OpList
