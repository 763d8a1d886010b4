import TemplateLowering.Job.Basic
import TemplateLowering.Proofs.Outcome

/-!
# The supply of numbers

Every number that a job uses was drawn from its supply, and the supply gives no number twice.  The
numbers in use are kept as a plain list, which may be in any order.  `Distinct n xs` says that all of
them are different and below the next number `n`, and `Grows n n' xs xs'` says that `xs'` holds
numbers of `xs` and numbers drawn between `n` and `n'`, each of these at most once.  Both speak of how
often a number occurs, so that the order of the lists never matters.
-/

namespace TemplateLowering

/-- The numbers are different from each other and below `n`. -/
def Distinct (n : Nat) (xs : List Xref) : Prop :=
  ∀ x : Xref, xs.count x ≤ if x.index < n then 1 else 0

/-- What is in `xs'` was in `xs` or was drawn once, while the next number went from `n` to `n'`. -/
structure Grows (n n' : Nat) (xs xs' : List Xref) : Prop where
  le : n ≤ n'
  count : ∀ x : Xref, xs'.count x ≤ xs.count x + if n ≤ x.index ∧ x.index < n' then 1 else 0

theorem distinct_iff {n : Nat} {xs : List Xref} :
    Distinct n xs ↔ xs.Nodup ∧ ∀ x ∈ xs, x.index < n := by
  constructor
  · intro h
    constructor
    · rw [List.nodup_iff_count_le_one]
      intro x
      have hx := h x
      split at hx <;> omega
    · intro x hmem
      have hx := h x
      have hpos := List.count_pos_iff.2 hmem
      by_contra hlt
      rw [if_neg hlt] at hx
      omega
  · intro h x
    by_cases hmem : x ∈ xs
    · rw [if_pos (h.2 x hmem)]
      exact List.nodup_iff_count_le_one.1 h.1 x
    · rw [List.count_eq_zero_of_not_mem hmem]
      omega

namespace Grows

variable {n n' n'' : Nat} {xs xs' xs'' ys ys' : List Xref}

theorem refl (n : Nat) (xs : List Xref) : Grows n n xs xs :=
  ⟨Nat.le_refl n, fun _ => Nat.le_add_right _ _⟩

theorem distinct (h : Grows n n' xs xs') (hxs : Distinct n xs) : Distinct n' xs' := by
  intro x
  have hle := h.le
  have hcount := h.count x
  have hx := hxs x
  grind

theorem trans (h : Grows n n' xs xs') (h' : Grows n' n'' xs' xs'') : Grows n n'' xs xs'' := by
  refine ⟨Nat.le_trans h.le h'.le, ?_⟩
  intro x
  have hle := h.le
  have hle' := h'.le
  have hcount := h.count x
  have hcount' := h'.count x
  grind

theorem append (h : Grows n n' xs xs') (h' : Grows n' n'' ys ys') :
    Grows n n'' (xs ++ ys) (xs' ++ ys') := by
  refine ⟨Nat.le_trans h.le h'.le, ?_⟩
  intro x
  have hle := h.le
  have hle' := h'.le
  have hcount := h.count x
  have hcount' := h'.count x
  simp only [List.count_append]
  grind

/-- The order of the numbers, and numbers that go out of use, do not matter. -/
theorem subperm (h : Grows n n' xs xs') (hxs : ∀ x, xs.count x ≤ ys.count x)
    (hxs' : ∀ x, ys'.count x ≤ xs'.count x) : Grows n n' ys ys' := by
  refine ⟨h.le, ?_⟩
  intro x
  have hcount := h.count x
  have hx := hxs x
  have hx' := hxs' x
  omega

theorem fresh (n : Nat) : Grows n (n + 1) [] [⟨n⟩] := by
  refine ⟨Nat.le_succ n, ?_⟩
  intro x
  obtain ⟨i⟩ := x
  grind

end Grows

/-! ## Drawing numbers -/

def drawn (n n' : Nat) : List Xref :=
  (List.range' n (n' - n)).map Xref.mk

theorem drawn_append {n n' n'' : Nat} (h : n ≤ n') (h' : n' ≤ n'') :
    drawn n n' ++ drawn n' n'' = drawn n n'' := by
  have hstart : n' = n + (n' - n) := by omega
  have hlength : n'' - n = (n' - n) + (n'' - n') := by omega
  rw [drawn, drawn, drawn, hlength, ← List.range'_append_1, List.map_append, ← hstart]

theorem count_drawn (n n' : Nat) (x : Xref) :
    (drawn n n').count x = if n ≤ x.index ∧ x.index < n' then 1 else 0 := by
  obtain ⟨i⟩ := x
  have hinj : Function.Injective Xref.mk := fun _ _ h => congrArg Xref.index h
  have hnodup : (List.range' n (n' - n)).Nodup := List.nodup_range'
  rw [drawn, List.count_map_of_injective _ _ hinj, hnodup.count]
  simp only [List.mem_range'_1]
  grind

theorem grows_drawn {n n' : Nat} (h : n ≤ n') : Grows n n' [] (drawn n n') := by
  refine ⟨h, ?_⟩
  intro x
  rw [count_drawn, List.count_nil, Nat.zero_add]

/-- From the supply `s` on, exactly the numbers `xs` were drawn, in this order, and no list. -/
structure Draws (s t : Ids) (xs : List Xref) : Prop where
  le : s.nextXref ≤ t.nextXref
  eq : xs = drawn s.nextXref t.nextXref
  lists : t.nextList = s.nextList

namespace Draws

variable {s t u : Ids} {xs ys : List Xref}

theorem nil (s : Ids) : Draws s s [] :=
  ⟨Nat.le_refl _, by simp [drawn], rfl⟩

theorem fresh (s : Ids) : Draws s { s with nextXref := s.nextXref + 1 } [⟨s.nextXref⟩] :=
  ⟨Nat.le_succ _, by simp [drawn], rfl⟩

theorem append (h : Draws s t xs) (h' : Draws t u ys) : Draws s u (xs ++ ys) :=
  ⟨Nat.le_trans h.le h'.le, by rw [h.eq, h'.eq, drawn_append h.le h'.le],
    h'.lists.trans h.lists⟩

theorem grows (h : Draws s t xs) : Grows s.nextXref t.nextXref [] xs :=
  h.eq ▸ grows_drawn h.le

end Draws

section Draw

variable {σ ε : Type} {s t : Ids}

theorem yields_freshXref {x : Xref} :
    Yields (Ids.freshXref : ExceptT ε (StateM Ids) Xref) s x t ↔
      ⟨s.nextXref⟩ = x ∧ { s with nextXref := s.nextXref + 1 } = t := by
  change Except.ok (Xref.mk s.nextXref, _) = .ok (x, t) ↔ _
  simp

theorem yields_freshXref_pass {x : Xref} :
    Yields (Ids.freshXref : StateT Ids (Except ε) Xref) s x t ↔
      ⟨s.nextXref⟩ = x ∧ { s with nextXref := s.nextXref + 1 } = t := by
  change Except.ok (Xref.mk s.nextXref, _) = .ok (x, t) ↔ _
  simp

theorem yields_freshXref_context {x : Xref} {a b : σ} :
    Yields (Ids.freshXref : StateT σ (StateT Ids (Except ε)) Xref) (a, s) x (b, t) ↔
      ⟨s.nextXref⟩ = x ∧ a = b ∧ { s with nextXref := s.nextXref + 1 } = t := by
  change Except.ok (Xref.mk s.nextXref, (a, _)) = .ok (x, (b, t)) ↔ _
  simp

theorem yields_freshList {list : ListId} :
    Yields (Ids.freshList : ExceptT ε (StateM Ids) ListId) s list t ↔
      ⟨s.nextList⟩ = list ∧ { s with nextList := s.nextList + 1 } = t := by
  change Except.ok (ListId.mk s.nextList, _) = .ok (list, t) ↔ _
  simp

theorem yields_freshList_pass {list : ListId} :
    Yields (Ids.freshList : StateT Ids (Except ε) ListId) s list t ↔
      ⟨s.nextList⟩ = list ∧ { s with nextList := s.nextList + 1 } = t := by
  change Except.ok (ListId.mk s.nextList, _) = .ok (list, t) ↔ _
  simp

theorem yields_freshView {ids : ViewIds} :
    Yields (Ids.freshView : ExceptT ε (StateM Ids) ViewIds) s ids t ↔
      { xref := ⟨s.nextXref⟩, createList := ⟨s.nextList⟩, updateList := ⟨s.nextList + 1⟩ } = ids ∧
        { nextXref := s.nextXref + 1, nextList := s.nextList + 2 } = t := by
  simp only [Ids.freshView, yields_bind, yields_freshXref, yields_freshList, yields_pure]
  constructor
  · rintro ⟨_, _, ⟨rfl, rfl⟩, _, _, ⟨rfl, rfl⟩, _, _, ⟨rfl, rfl⟩, rfl, rfl⟩
    exact ⟨rfl, rfl⟩
  · rintro ⟨rfl, rfl⟩
    exact ⟨_, _, ⟨rfl, rfl⟩, _, _, ⟨rfl, rfl⟩, _, _, ⟨rfl, rfl⟩, rfl, rfl⟩

end Draw

theorem Threads.grows {σ α β : Type} {R : σ → α → β → σ → Prop} {next : σ → Nat}
    {obs : α → List Xref} {obs' : β → List Xref} {s t : σ} {as : List α} {bs : List β}
    (h : Threads R s as bs t)
    (hR : ∀ s a b t, a ∈ as → R s a b t → Grows (next s) (next t) (obs a) (obs' b)) :
    Grows (next s) (next t) (as.flatMap obs) (bs.flatMap obs') := by
  induction h with
  | nil => exact Grows.refl _ _
  | cons hab _ ih =>
    have hhead := hR _ _ _ _ List.mem_cons_self hab
    have htail := ih fun s a b t hmem => hR s a b t (List.mem_cons_of_mem _ hmem)
    simpa using hhead.append htail

end TemplateLowering
