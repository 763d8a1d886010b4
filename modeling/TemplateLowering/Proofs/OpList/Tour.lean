import TemplateLowering.Op.List.Cursor
import TemplateLowering.Proofs.OpList.Rejection

/-!
# Tours

A tour is a cursor on its way along a list, while commands edit the list between its steps.  As long
as every command works behind the cursor, at operations that it has passed or at the end that it
comes from, the part of the chain that lies ahead stays as it was.  The main theorem says that such
a tour never fails and meets exactly the operations that were on the list when it began, and that
no cursor ever steps over an operation which it was about to meet and which has been unlinked.
-/

namespace TemplateLowering.OpList

/-- A cursor on its way along a list, with the answers that it has given. -/
structure Tour (α : Type) where
  list : OpList α
  cursor : Cursor
  answers : List (Option OpId)

inductive Move (α : Type)
  | advance
  | edit (command : Command α)

def Move.isAdvance {α : Type} : Move α → Bool
  | .advance => true
  | .edit _ => false

variable {α : Type} [ListOp α]

namespace Tour

def start (l : OpList α) (reverse : Bool) : Tour α :=
  { list := l, cursor := if reverse then l.cursorRev else l.cursor, answers := [] }

/-- One move; a command that is rejected does not end the tour. -/
def move (t : Tour α) : Move α → Except Fault (Tour α)
  | .advance => do
      let (id?, cursor) ← t.cursor.next t.list
      return { t with cursor, answers := t.answers ++ [id?] }
  | .edit command => .ok { t with list := (command.edit.result t.list).2 }

def run (t : Tour α) (moves : List (Move α)) : Except Fault (Tour α) :=
  moves.foldlM move t

/-- The operation has been met and is linked. -/
def Passed (t : Tour α) (id : OpId) : Prop :=
  some id ∈ t.answers ∧ id ∈ t.list.ids

/-- The place lies behind the cursor: at an operation that it has passed, or at the end of the list
that it comes from. -/
def Behind (t : Tour α) : Place → Prop
  | .nowhere => True
  | .start => t.cursor.reverse = false
  | .finish => t.cursor.reverse = true
  | .before id | .after id | .instead id => t.Passed id

def Allows (t : Tour α) : Move α → Prop
  | .advance => True
  | .edit command => t.Behind command.place

/-- Every command of the tour works behind the cursor. -/
def StaysBehind (t : Tour α) : List (Move α) → Prop
  | [] => True
  | move :: moves => t.Allows move ∧
      match t.move move with
      | .ok t' => t'.StaysBehind moves
      | .error _ => True

instance (t : Tour α) (place : Place) : Decidable (t.Behind place) :=
  match place with
  | .nowhere => .isTrue trivial
  | .start | .finish => inferInstanceAs (Decidable (_ = _))
  | .before _ | .after _ | .instead _ => inferInstanceAs (Decidable (_ ∧ _))

instance (t : Tour α) (move : Move α) : Decidable (t.Allows move) :=
  match move with
  | .advance => .isTrue trivial
  | .edit command => inferInstanceAs (Decidable (t.Behind command.place))

instance decidableStaysBehind (t : Tour α) : (moves : List (Move α)) →
    Decidable (t.StaysBehind moves)
  | [] => .isTrue trivial
  | move :: moves =>
      have : Decidable (match t.move move with
          | .ok t' => t'.StaysBehind moves
          | .error _ => True) :=
        match t.move move with
        | .ok t' => decidableStaysBehind t' moves
        | .error _ => .isTrue trivial
      inferInstanceAs (Decidable (_ ∧ _))

end Tour

/-! ## The part that lies ahead -/

theorem split_middle {a m b front back : List Nat} {x : Nat}
    (hnodup : (a ++ m ++ b).Nodup) (hx : x ∈ m) (hcut : a ++ m ++ b = front ++ x :: back) :
    ∃ m₁ m₂, m = m₁ ++ x :: m₂ ∧ front = a ++ m₁ ∧ back = m₂ ++ b := by
  obtain ⟨m₁, m₂, rfl⟩ := List.append_of_mem hx
  have hcut' : (a ++ m₁) ++ x :: (m₂ ++ b) = front ++ x :: back := by simpa using hcut
  have hfront : x ∉ a ++ m₁ := by grind
  have hback : x ∉ m₂ ++ b := by grind
  obtain ⟨hfront, -, hback⟩ := (List.append_cons_inj_of_notMem hfront hback).1 hcut'
  exact ⟨m₁, m₂, rfl, hfront.symm, hback.symm⟩

variable {l l' : OpList α} {t t' : Tour α} {command : Command α} {is a m b ahead : List Nat}

/-- Where a command may work so that the parts `a` and `b` of the chain `a ++ m ++ b` stay. -/
def Place.Within (l : OpList α) (a m b : List Nat) : Place → Prop
  | .nowhere => True
  | .start => a = []
  | .finish => b = []
  | .before id | .after id | .instead id => id ∈ m.map l.opId

theorem Effect.exists_middle (heffect : Effect l command (a ++ m ++ b) l')
    (h : l.Chain (a ++ m ++ b)) (hwithin : command.place.Within l a m b) :
    ∃ m', l'.Chain (a ++ m' ++ b) := by
  have hnodup := h.indices_nodup
  cases heffect with
  | overwrite i op _ heq =>
    rw [heq]
    exact ⟨m, h.setOp i op⟩
  | splice front old new back cut place spliced =>
    suffices ∃ m', front ++ new ++ back = a ++ m' ++ b by
      obtain ⟨m', hm'⟩ := this
      exact ⟨m', hm' ▸ spliced.chain⟩
    generalize command.place = p at place hwithin
    cases p with
    | nowhere =>
      obtain ⟨rfl, rfl⟩ := place
      exact ⟨m, cut.symm⟩
    | start =>
      obtain ⟨rfl, rfl⟩ := place
      obtain rfl : a = [] := hwithin
      have hback : m ++ b = back := by simpa using cut
      exact ⟨new ++ m, by simp [← hback]⟩
    | finish =>
      obtain ⟨rfl, rfl⟩ := place
      obtain rfl : b = [] := hwithin
      have hfront : a ++ m = front := by simpa using cut
      exact ⟨m ++ new, by simp [← hfront]⟩
    | before id =>
      obtain ⟨rfl, hid⟩ := place
      obtain ⟨x, hx, rfl⟩ := List.mem_map.1 hwithin
      have hne : x ≠ tailIndex := fun heq => h.tailIndex_notMem (by simp [← heq, hx])
      have hhead : x = back.headD tailIndex := l.opId_injective hid
      cases back with
      | nil => exact absurd hhead hne
      | cons y back =>
        obtain rfl : x = y := hhead
        obtain ⟨m₁, m₂, -, rfl, rfl⟩ := split_middle hnodup hx (by simpa using cut)
        exact ⟨m₁ ++ new ++ x :: m₂, by simp⟩
    | after id =>
      obtain ⟨rfl, hid⟩ := place
      obtain ⟨x, hx, rfl⟩ := List.mem_map.1 hwithin
      have hne : x ≠ headIndex := fun heq => h.headIndex_notMem (by simp [← heq, hx])
      have hlast : x = front.getLastD headIndex := l.opId_injective hid
      rcases List.eq_nil_or_concat front with rfl | ⟨front, y, rfl⟩
      · exact absurd hlast hne
      · obtain rfl : x = y := by simpa using hlast
        obtain ⟨m₁, m₂, -, rfl, rfl⟩ := split_middle hnodup hx (by simpa using cut)
        exact ⟨m₁ ++ x :: new ++ m₂, by simp⟩
    | instead id =>
      obtain ⟨rfl, -⟩ := place
      obtain ⟨x, hx, rfl⟩ := List.mem_map.1 hwithin
      obtain ⟨m₁, m₂, -, rfl, rfl⟩ := split_middle hnodup hx (by simpa using cut)
      exact ⟨m₁ ++ new ++ m₂, by simp⟩

theorem Chain.exists_middle_result (h : l.Chain (a ++ m ++ b))
    (hwithin : command.place.Within l a m b) :
    ∃ m', (command.edit.result l).2.Chain (a ++ m' ++ b) := by
  rcases yields_or_rejects command.edit l with ⟨reply, hyields⟩ | hrejects
  · exact (h.edit hyields).exists_middle h hwithin
  · obtain ⟨ops, hops⟩ := h.allocAll_of_rejected hrejects
    rw [hops]
    exact ⟨m, h.allocAll ops⟩

theorem Effect.sameName (heffect : Effect l command is l') : l'.id = l.id ∧ l'.arena = l.arena := by
  cases heffect with
  | splice _ _ _ _ _ _ spliced => exact ⟨spliced.id, spliced.arena⟩
  | overwrite _ _ _ heq =>
    rw [heq]
    exact ⟨rfl, rfl⟩

theorem Linked.sameName_replay (h : l.Linked) (commands : List (Command α)) :
    (l.replay commands).id = l.id ∧ (l.replay commands).arena = l.arena := by
  refine (replay_induction (P := fun l' => l'.id = l.id ∧ l'.arena = l.arena) h ⟨rfl, rfl⟩
    ?_ ?_).2
  · intro command _ l₁ l₂ is _ heffect hname
    obtain ⟨hid, harena⟩ := heffect.sameName
    exact ⟨hid.trans hname.1, harena.trans hname.2⟩
  · intro l₁ ops _ hname
    exact ⟨(allocAll_id ops).trans hname.1, (allocAll_arena ops).trans hname.2⟩

theorem Linked.sameName_result (h : l.Linked) (command : Command α) :
    (command.edit.result l).2.id = l.id ∧ (command.edit.result l).2.arena = l.arena :=
  h.sameName_replay [command]

/-! ## Steps of a tour -/

/-- The sentinel at which a cursor ends. -/
def Cursor.goal (c : Cursor) : Nat :=
  if c.reverse then headIndex else tailIndex

/-- The chain with the part `ahead` of the cursor, in the order in which it comes. -/
def Cursor.chain (c : Cursor) (behind ahead : List Nat) : List Nat :=
  if c.reverse then ahead.reverse ++ behind else behind ++ ahead

omit [ListOp α] in
theorem Cursor.next_eq {c : Cursor} (hlist : l.id = c.list) (harena : l.arena = c.arena) :
    c.next l = match c.position with
      | none => .ok (none, c)
      | some i =>
          if i = c.goal then .ok (none, { c with position := none })
          else if l.owner? i = some l.id then
            .ok (some (l.opId i),
              { c with position := if c.reverse then l.prev? i else l.next? i })
          else .error .cursorLost := by
  unfold Cursor.next Cursor.goal
  rw [if_neg (by simp [hlist, harena])]
  cases c.position with
  | none => rfl
  | some i => by_cases howner : l.owner? i = some l.id <;> simp [howner]

theorem Cursor.mem_chain {c : Cursor} {behind ahead : List Nat} {i : Nat} :
    i ∈ c.chain behind ahead ↔ i ∈ behind ∨ i ∈ ahead := by
  unfold Cursor.chain
  split_ifs <;> simp [or_comm]

/-- The tour has taken `count` steps along `order`, and what it has not met yet lies ahead. -/
structure Tour.Abreast (t : Tour α) (order : List OpId) (count : Nat) (ahead : List Nat) :
    Prop where
  list : t.list.id = t.cursor.list
  arena : t.list.arena = t.cursor.arena
  chain : ∃ behind, t.list.Chain (t.cursor.chain behind ahead)
  rest : ahead.map t.list.opId = order.drop count
  position : t.cursor.position = some (ahead.headD t.cursor.goal) ∨
    ahead = [] ∧ t.cursor.position = none
  answers : t.answers = (List.range count).map (order[·]?)

namespace Tour.Abreast

variable {order : List OpId} {count : Nat}

omit [ListOp α] in
theorem passed {behind : List Nat} {id : OpId} (h : t.Abreast order count ahead)
    (hchain : t.list.Chain (t.cursor.chain behind ahead)) (horder : order.Nodup)
    (hid : t.Passed id) : id ∈ behind.map t.list.opId := by
  obtain ⟨hmet, hlinked⟩ := hid
  rw [h.answers, List.mem_map] at hmet
  obtain ⟨k, hk, hget⟩ := hmet
  have hnot : id ∉ order.drop count := by
    intro hdrop
    obtain ⟨j, hj, hjid⟩ := List.mem_iff_getElem.1 hdrop
    rw [List.getElem_drop] at hjid
    obtain ⟨hklt, hkid⟩ := List.getElem?_eq_some_iff.1 hget
    have hlt : count + j < order.length := by
      rw [List.length_drop] at hj
      omega
    have hsame : order.get ⟨k, hklt⟩ = order.get ⟨count + j, hlt⟩ := hkid.trans hjid.symm
    have heq := congrArg Fin.val (List.nodup_iff_injective_get.1 horder hsame)
    simp only at heq
    have hkcount := List.mem_range.1 hk
    omega
  rw [hchain.ids_eq] at hlinked
  obtain ⟨i, hi, rfl⟩ := List.mem_map.1 hlinked
  rw [← h.rest] at hnot
  rcases Cursor.mem_chain.1 hi with hbehind | hahead
  · exact List.mem_map_of_mem hbehind
  · exact absurd (List.mem_map_of_mem hahead) hnot

theorem edit (h : t.Abreast order count ahead) (horder : order.Nodup)
    (hbehind : t.Behind command.place) :
    ({ t with list := (command.edit.result t.list).2 } : Tour α).Abreast order count ahead := by
  obtain ⟨behind, hchain⟩ := h.chain
  obtain ⟨hid, harena⟩ := Linked.sameName_result ⟨_, hchain⟩ command
  have hpassed : ∀ id, t.Passed id → id ∈ behind.map t.list.opId := fun id =>
    h.passed hchain horder
  have hname : (command.edit.result t.list).2.opId = t.list.opId := by
    funext i
    simp only [opId, hid, harena]
  refine ⟨hid.trans h.list, harena.trans h.arena, ?_, by rw [hname]; exact h.rest, h.position,
    h.answers⟩
  simp only [Cursor.chain] at hchain ⊢
  cases hreverse : t.cursor.reverse with
  | false =>
    simp only [hreverse, Bool.false_eq_true, if_false] at hchain ⊢
    have hwithin : command.place.Within t.list [] behind ahead := by
      generalize command.place = p at hbehind
      cases p <;> simp_all [Place.Within, Tour.Behind]
    simpa using Chain.exists_middle_result (a := []) (by simpa using hchain) hwithin
  | true =>
    simp only [hreverse, if_true] at hchain ⊢
    have hwithin : command.place.Within t.list ahead.reverse behind [] := by
      generalize command.place = p at hbehind
      cases p <;> simp_all [Place.Within, Tour.Behind]
    simpa using Chain.exists_middle_result (b := []) (by simpa using hchain) hwithin

omit [ListOp α] in
theorem next_cons {i : Nat} (h : t.Abreast order count (i :: ahead)) :
    t.cursor.next t.list = .ok (some (t.list.opId i),
      { t.cursor with position := some (ahead.headD t.cursor.goal) }) := by
  obtain ⟨behind, hchain⟩ := h.chain
  have hmem : i ∈ t.cursor.chain behind (i :: ahead) := Cursor.mem_chain.2 (by simp)
  have hhead : i ≠ headIndex := fun heq => hchain.headIndex_notMem (heq ▸ hmem)
  have htail : i ≠ tailIndex := fun heq => hchain.tailIndex_notMem (heq ▸ hmem)
  have howned := hchain.owned_of_mem hmem
  have hposition : t.cursor.position = some i := by simpa using h.position
  simp only [Cursor.chain] at hchain
  cases hreverse : t.cursor.reverse with
  | false =>
    simp only [hreverse, Bool.false_eq_true, if_false] at hchain
    have hcut : t.list.Chain ((behind ++ [i]) ++ ahead) := by simpa using hchain
    have hnext : t.list.next? i = some (ahead.headD tailIndex) := by
      simpa using hcut.next?_getLastD
    simp [Cursor.next_eq h.list h.arena, Cursor.goal, hposition, hreverse, htail, howned, hnext]
  | true =>
    simp only [hreverse, if_true] at hchain
    have hcut : t.list.Chain (ahead.reverse ++ i :: behind) := by simpa using hchain
    have hprev : t.list.prev? i = some (ahead.headD headIndex) := by
      have hlast : ahead.reverse.getLastD headIndex = ahead.headD headIndex := by
        cases ahead <;> simp
      rw [← hlast]
      exact hcut.prev?_headD
    simp [Cursor.next_eq h.list h.arena, Cursor.goal, hposition, hreverse, hhead, howned, hprev]

omit [ListOp α] in
theorem next_nil (h : t.Abreast order count []) :
    t.cursor.next t.list = .ok (none, { t.cursor with position := none }) := by
  rcases h.position with hposition | ⟨-, hposition⟩
  · simp [Cursor.next_eq h.list h.arena, hposition]
  · have hstays : { t.cursor with position := none } = t.cursor := by rw [← hposition]
    simp [Cursor.next_eq h.list h.arena, hposition, hstays]

theorem advance (h : t.Abreast order count ahead) :
    ∃ t', t.move .advance = .ok t' ∧ ∃ ahead', t'.Abreast order (count + 1) ahead' := by
  have hanswers (id? : Option OpId) (hid : id? = order[count]?) :
      t.answers ++ [id?] = (List.range (count + 1)).map (order[·]?) := by
    rw [h.answers, hid, List.range_succ, List.map_append, List.map_singleton]
  have hdrop : ahead.tail.map t.list.opId = order.drop (count + 1) := by
    rw [← List.tail_drop, ← h.rest, List.map_tail]
  have hfirst : (ahead.map t.list.opId).head? = order[count]? := by
    rw [h.rest, List.head?_drop]
  cases ahead with
  | nil =>
    refine ⟨{ t with cursor := { t.cursor with position := none },
                     answers := t.answers ++ [none] }, ?_, [], ?_⟩
    · simp only [Tour.move, h.next_nil]
      rfl
    · exact ⟨h.list, h.arena, h.chain, hdrop, .inr ⟨rfl, rfl⟩, hanswers none hfirst⟩
  | cons i ahead =>
    obtain ⟨behind, hchain⟩ := h.chain
    refine ⟨{ t with
              cursor := { t.cursor with position := some (ahead.headD t.cursor.goal) }
              answers := t.answers ++ [some (t.list.opId i)] }, ?_, ahead, ?_⟩
    · simp only [Tour.move, h.next_cons]
      rfl
    · refine ⟨h.list, h.arena, ?_, hdrop, .inl rfl, hanswers _ hfirst⟩
      simp only [Cursor.chain] at hchain ⊢
      split_ifs at hchain ⊢
      · exact ⟨i :: behind, by simpa using hchain⟩
      · exact ⟨behind ++ [i], by simpa using hchain⟩

/-- Along a tour that is only edited behind its cursor, each step meets the next operation. -/
theorem run {moves : List (Move α)} (h : t.Abreast order count ahead) (horder : order.Nodup)
    (hmoves : t.StaysBehind moves) :
    ∃ t', t.run moves = .ok t' ∧
      ∃ ahead', t'.Abreast order (count + moves.countP Move.isAdvance) ahead' := by
  induction moves generalizing t count ahead with
  | nil => exact ⟨t, rfl, ahead, h⟩
  | cons move moves ih =>
    obtain ⟨hbehind, hrest⟩ := hmoves
    cases move with
    | advance =>
      obtain ⟨t₁, hmove, ahead₁, h₁⟩ := h.advance
      rw [hmove] at hrest
      obtain ⟨t', hrun, ahead', h'⟩ := ih h₁ hrest
      refine ⟨t', ?_, ahead', ?_⟩
      · simp only [Tour.run, List.foldlM_cons, hmove]
        exact hrun
      · have hcount : (Move.advance :: moves).countP Move.isAdvance =
            moves.countP Move.isAdvance + 1 := by simp [List.countP_cons, Move.isAdvance]
        rw [hcount]
        convert h' using 1
        omega
    | edit command =>
      have h₁ := h.edit horder hbehind
      obtain ⟨t', hrun, ahead', h'⟩ := ih h₁ hrest
      have hcount : (Move.edit command :: moves).countP Move.isAdvance =
          moves.countP Move.isAdvance := by simp [Move.isAdvance]
      exact ⟨t', hrun, ahead', hcount ▸ h'⟩

end Tour.Abreast

omit [ListOp α] in
theorem Chain.abreast_start (h : l.Chain is) (reverse : Bool) :
    (Tour.start l reverse).Abreast (if reverse then l.ids.reverse else l.ids) 0
      (if reverse then is.reverse else is) := by
  have hstart : l.Chain ([] ++ is) := h
  have hend : l.Chain (is ++ []) := by simpa using h
  have hnext : l.next? headIndex = some (is.headD tailIndex) := hstart.next?_getLastD
  have hprev : l.prev? tailIndex = some (is.getLastD headIndex) := hend.prev?_headD
  cases reverse with
  | false =>
    refine ⟨rfl, rfl, ⟨[], ?_⟩, ?_, .inl ?_, rfl⟩
    · simpa [Tour.start, Cursor.chain, cursor] using h
    · simp [Tour.start, h.ids_eq]
    · simpa [Tour.start, Cursor.goal, cursor] using hnext
  | true =>
    refine ⟨rfl, rfl, ⟨[], ?_⟩, ?_, .inl ?_, rfl⟩
    · simpa [Tour.start, Cursor.chain, cursorRev] using h
    · simp [Tour.start, h.ids_eq]
    · have hlast : is.reverse.headD headIndex = is.getLastD headIndex := by
        rw [List.headD_eq_head?_getD, List.head?_reverse, List.getLastD_eq_getLast?]
      simp only [Tour.start, Cursor.goal, cursorRev, if_true, hlast]
      exact hprev

/-! ## Tours that are edited anywhere -/

theorem mem_of_nextIn_cons {first i j : Nat} {rest : List Nat}
    (h : nextIn (first :: rest) i = some j) : j ∈ rest := by
  induction rest generalizing first with
  | nil => simp [nextIn] at h
  | cons second rest ih =>
    rw [nextIn] at h
    split_ifs at h
    · simp_all
    · exact List.mem_cons_of_mem _ (ih h)

omit [ListOp α] in
theorem Chain.next?_ne_headIndex (h : l.Chain is) (i : Nat) : l.next? i ≠ some headIndex := by
  intro heq
  rw [h.next, line] at heq
  have hmem := mem_of_nextIn_cons heq
  have hhead := h.headIndex_notMem
  simp_all

omit [ListOp α] in
theorem Chain.prev?_ne_tailIndex (h : l.Chain is) (i : Nat) : l.prev? i ≠ some tailIndex := by
  intro heq
  rw [h.prev] at heq
  have hline : (line is).reverse = tailIndex :: (headIndex :: is).reverse := by simp [line]
  rw [hline] at heq
  have hmem := mem_of_nextIn_cons heq
  have htail := h.tailIndex_notMem
  simp_all

/-- The list is linked and the cursor belongs to it; it never stands at the end it comes from. -/
structure Tour.Steady (t : Tour α) : Prop where
  linked : t.list.Linked
  list : t.list.id = t.cursor.list
  arena : t.list.arena = t.cursor.arena
  position : t.cursor.position ≠ some (if t.cursor.reverse then tailIndex else headIndex)

namespace Tour.Steady

omit [ListOp α] in
theorem start (h : l.Linked) (reverse : Bool) : (Tour.start l reverse).Steady := by
  obtain ⟨is, hchain⟩ := h
  have hstart : l.Chain ([] ++ is) := by simpa using hchain
  have hend : l.Chain (is ++ []) := by simpa using hchain
  have hnext := hstart.next?_getLastD
  have hprev := hend.prev?_headD
  rw [List.getLastD_nil] at hnext
  rw [List.headD_nil] at hprev
  cases reverse with
  | false =>
    refine ⟨⟨is, hchain⟩, rfl, rfl, ?_⟩
    simp only [Tour.start, OpList.cursor, Bool.false_eq_true, if_false, hnext]
    exact fun heq => hstart.headD_ne_headIndex (Option.some.inj heq)
  | true =>
    refine ⟨⟨is, hchain⟩, rfl, rfl, ?_⟩
    simp only [Tour.start, OpList.cursorRev, if_true, hprev]
    exact fun heq => hend.getLastD_ne_tailIndex (Option.some.inj heq)

omit [ListOp α] in
theorem next {id? : Option OpId} {c : Cursor} (h : t.Steady)
    (hnext : t.cursor.next t.list = .ok (id?, c)) :
    c.list = t.cursor.list ∧ c.arena = t.cursor.arena ∧ c.reverse = t.cursor.reverse ∧
      c.position ≠ some (if t.cursor.reverse then tailIndex else headIndex) := by
  obtain ⟨is, hchain⟩ := h.linked
  rw [Cursor.next_eq h.list h.arena] at hnext
  cases hposition : t.cursor.position with
  | none =>
    simp only [hposition, Except.ok.injEq, Prod.mk.injEq] at hnext
    obtain ⟨-, rfl⟩ := hnext
    exact ⟨rfl, rfl, rfl, h.position⟩
  | some i =>
    simp only [hposition] at hnext
    split at hnext
    · obtain ⟨-, rfl⟩ := Prod.mk.inj (Except.ok.inj hnext)
      exact ⟨rfl, rfl, rfl, by simp⟩
    · split at hnext
      · obtain ⟨-, rfl⟩ := Prod.mk.inj (Except.ok.inj hnext)
        refine ⟨rfl, rfl, rfl, ?_⟩
        change (if t.cursor.reverse then t.list.prev? i else t.list.next? i) ≠ _
        split
        · exact hchain.prev?_ne_tailIndex i
        · exact hchain.next?_ne_headIndex i
      · exact nomatch hnext

theorem move {move : Move α} (h : t.Steady) (hmove : t.move move = .ok t') : t'.Steady := by
  cases move with
  | edit command =>
    obtain rfl := Except.ok.inj hmove
    obtain ⟨hid, harena⟩ := h.linked.sameName_result command
    exact ⟨h.linked.replay [command], hid.trans h.list, harena.trans h.arena, h.position⟩
  | advance =>
    simp only [Tour.move] at hmove
    cases hnext : t.cursor.next t.list with
    | error fault =>
      rw [hnext] at hmove
      exact nomatch hmove
    | ok result =>
      obtain ⟨id?, c⟩ := result
      rw [hnext] at hmove
      obtain rfl := Except.ok.inj hmove
      obtain ⟨hlist, harena, hreverse, hposition⟩ := h.next hnext
      exact ⟨h.linked, h.list.trans hlist.symm, h.arena.trans harena.symm,
        by simpa [hreverse] using hposition⟩

theorem run {moves : List (Move α)} (h : t.Steady) (hrun : t.run moves = .ok t') : t'.Steady := by
  induction moves generalizing t with
  | nil =>
    obtain rfl := Except.ok.inj hrun
    exact h
  | cons move moves ih =>
    simp only [Tour.run, List.foldlM_cons] at hrun
    cases hmove : t.move move with
    | error fault =>
      rw [hmove] at hrun
      exact nomatch hrun
    | ok t₁ =>
      rw [hmove] at hrun
      exact ih (h.move hmove) hrun

/-- After any edits the operation that was about to be met is met, or it is missed with a fault if
it is not linked any more. -/
theorem next_replay {id : OpId} {c : Cursor} (h : t.Steady)
    (hnext : t.cursor.next t.list = .ok (some id, c)) (commands : List (Command α)) :
    (id ∈ (t.list.replay commands).ids →
        ∃ c', t.cursor.next (t.list.replay commands) = .ok (some id, c')) ∧
      (id ∉ (t.list.replay commands).ids →
        t.cursor.next (t.list.replay commands) = .error .cursorLost) := by
  obtain ⟨hid, harena⟩ := h.linked.sameName_replay commands
  obtain ⟨is, hchain⟩ := h.linked.replay commands
  have hname (i : Nat) : (t.list.replay commands).opId i = t.list.opId i := by
    simp only [opId, hid, harena]
  -- The cursor stands at the node of `id`, which is no sentinel.
  obtain ⟨i, hposition, hgoal, rfl⟩ : ∃ i, t.cursor.position = some i ∧ i ≠ t.cursor.goal ∧
      id = t.list.opId i := by
    rw [Cursor.next_eq h.list h.arena] at hnext
    cases hposition : t.cursor.position with
    | none => simp [hposition] at hnext
    | some i =>
      simp only [hposition] at hnext
      split at hnext
      · simp at hnext
      · rename_i hgoal
        split at hnext
        · obtain ⟨hid, -⟩ := Prod.mk.inj (Except.ok.inj hnext)
          exact ⟨i, rfl, hgoal, (Option.some.inj hid).symm⟩
        · cases hnext
  have hline : i ∈ line is ↔ i ∈ is := by
    have hstart := h.position
    rw [hposition] at hstart
    simp only [Cursor.goal] at hgoal
    rw [Chain.mem_line]
    split_ifs at hstart hgoal <;> simp_all
  have hlinked : t.list.opId i ∈ (t.list.replay commands).ids ↔
      (t.list.replay commands).owner? i = some (t.list.replay commands).id := by
    rw [hchain.ids_eq, ← hname, List.mem_map_of_injective (opId_injective _), hchain.owned_iff,
      hline]
  rw [hlinked, Cursor.next_eq (hid.trans h.list) (harena.trans h.arena)]
  simp only [hposition, hgoal, if_false]
  constructor
  · intro howned
    rw [if_pos howned, hname]
    exact ⟨_, rfl⟩
  · intro howned
    rw [if_neg howned]

end Tour.Steady

/-! ## The main result -/

/-- A cursor over any list that commands can produce, forwards or backwards: as long as the list is
edited behind it, every step meets the next of the operations that were on the list in the
beginning, each of them once, and nothing after the last of them.  However it is edited, an operation that a cursor is
about to meet is met, or else the step fails. -/
theorem cursor_safe_under_edits_behind {l : OpList α} (h : l.Reachable) (reverse : Bool) :
    l.ids.Nodup ∧
      (∀ moves, (Tour.start l reverse).StaysBehind moves →
        ∃ t, (Tour.start l reverse).run moves = .ok t ∧
          t.answers = (List.range (moves.countP Move.isAdvance)).map fun k =>
            (if reverse then l.ids.reverse else l.ids)[k]?) ∧
      ∀ moves t, (Tour.start l reverse).run moves = .ok t →
        ∀ id c, t.cursor.next t.list = .ok (some id, c) → ∀ commands,
          (id ∈ (t.list.replay commands).ids →
              ∃ c', t.cursor.next (t.list.replay commands) = .ok (some id, c')) ∧
            (id ∉ (t.list.replay commands).ids →
              t.cursor.next (t.list.replay commands) = .error .cursorLost) := by
  obtain ⟨is, hchain⟩ := h.linked
  refine ⟨hchain.ids_nodup, ?_, ?_⟩
  · intro moves hmoves
    have horder : (if reverse then l.ids.reverse else l.ids).Nodup := by
      split_ifs
      · exact List.nodup_reverse.2 hchain.ids_nodup
      · exact hchain.ids_nodup
    obtain ⟨t, hrun, ahead, habreast⟩ := (hchain.abreast_start reverse).run horder hmoves
    rw [Nat.zero_add] at habreast
    exact ⟨t, hrun, habreast.answers⟩
  · intro moves t hrun id c hnext commands
    exact ((Tour.Steady.start h.linked reverse).run hrun).next_replay hnext commands

def threeOfFour : List (Command CreateOp) :=
  [.pushAll [.icuEnd ⟨2⟩, .icuEnd ⟨3⟩, .icuEnd ⟨4⟩], .create (.icuEnd ⟨5⟩)]

/-- Between the steps the first operation is preceded by another one, the second is removed, and
then everything behind the cursor. -/
def clearing : List (Move CreateOp) :=
  let node (index : Nat) : OpId := { list := ⟨0⟩, arena := 0, index }
  [.advance, .edit (.replaceWithMany (node 2) [node 5, node 2]), .advance,
    .edit (.remove (node 3)), .edit (.prepend [.icuEnd ⟨6⟩]),
    .edit (.insertAfter (.icuEnd ⟨7⟩) (node 2)), .edit (.remove (node 2)), .advance, .advance]

theorem cursor_safe_under_edits_behind_clearing :
    let node (index : Nat) : OpId := { list := ⟨0⟩, arena := 0, index }
    let l : OpList CreateOp := (empty ⟨0⟩ 0).replay threeOfFour
    l.Reachable ∧ (Tour.start l false).StaysBehind clearing ∧
      (∃ t, (Tour.start l false).run clearing = .ok t ∧
        t.answers = [some (node 2), some (node 3), some (node 4), none]) ∧
      (Tour.start l true).cursor.next (l.replay [.remove (node 4)]) = .error .cursorLost := by
  intro node l
  have h : l.Reachable := ⟨_, _, _, rfl⟩
  have hbehind : (Tour.start l false).StaysBehind clearing := by decide +kernel
  obtain ⟨t, hrun, hanswers⟩ := (cursor_safe_under_edits_behind h false).2.1 clearing hbehind
  refine ⟨h, hbehind, ⟨t, hrun, hanswers.trans (by decide +kernel)⟩, ?_⟩
  exact ((cursor_safe_under_edits_behind h true).2.2 [] _ rfl (node 4) _ rfl
    [.remove (node 4)]).2 (by decide +kernel)

end TemplateLowering.OpList
