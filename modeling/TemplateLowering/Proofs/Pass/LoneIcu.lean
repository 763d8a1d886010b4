import TemplateLowering.Pass.I18nBlock
import TemplateLowering.Proofs.Pass.Edit

/-!
# Blocks around ICU expressions

Where marks are balanced, an ICU expression ends before anything else starts, so that the pass finds
the end of each one that stands outside all blocks.  `Enclosed` relates the operations before and
after the pass, and all that follows for the outline of the view is derived from it.
-/

namespace TemplateLowering

variable {op : CreateOp} {inBlock : Bool} {ops : List CreateOp}

/-! ## Enclosed operations -/

def CreateOp.inBlockAfter (inBlock : Bool) : CreateOp → Bool
  | .i18nStart _ => true
  | .i18nEnd _ => false
  | _ => inBlock

def CreateOp.isIcuStart : CreateOp → Bool
  | .icuStart _ => true
  | _ => false

def icuBlockStart (n : Nat) (message : I18n.Message) : CreateOp :=
  .i18nStart { xref := ⟨n⟩, root := ⟨n⟩, message, span := none }

def icuBlockEnd (n : Nat) : CreateOp :=
  .i18nEnd { xref := ⟨n⟩, span := none }

/-- The operations with a block around every ICU expression outside all blocks.  The numbers of the
blocks go from `n` to `n'`. -/
inductive Enclosed : Bool → Nat → List CreateOp → List CreateOp → Nat → Prop
  | nil {inBlock : Bool} {n : Nat} : Enclosed inBlock n [] [] n
  | keep {inBlock : Bool} {n n' : Nat} {op : CreateOp} {ops ops' : List CreateOp} :
      (inBlock = true ∨ op.isIcuStart = false) → Enclosed (op.inBlockAfter inBlock) n ops ops' n' →
      Enclosed inBlock n (op :: ops) (op :: ops') n'
  | lone {n n' : Nat} {icu : IcuStart} {middle ops ops' : List CreateOp} :
      (∀ op ∈ middle, op.marks = []) → Enclosed false (n + 1) ops ops' n' →
      Enclosed false n (.icuStart icu :: (middle ++ .icuEnd icu.xref :: ops))
        (icuBlockStart n icu.message :: .icuStart icu ::
          (middle ++ .icuEnd icu.xref :: icuBlockEnd n :: ops')) n'

theorem CreateOp.covered_marks_append (h : inBlock = true ∨ op.isIcuStart = false)
    (rest : List Mark) :
    covered inBlock (op.marks ++ rest) = covered (op.inBlockAfter inBlock) rest := by
  cases op with
  | icuStart op =>
    have hblock : inBlock = true := by simpa [isIcuStart] using h
    simp [marks, covered, inBlockAfter, hblock]
  | _ => rfl

theorem balanced_append_imp {rest rest' : List Mark}
    (h : ∀ opened, balanced opened rest = true → balanced opened rest' = true) (marks : List Mark)
    (opened : List Bracket) (hmarks : balanced opened (marks ++ rest) = true) :
    balanced opened (marks ++ rest') = true := by
  induction marks generalizing opened with
  | nil => exact h opened hmarks
  | cons mark marks ih =>
    cases mark with
    | start bracket =>
      simp only [List.cons_append, balanced, Bool.and_eq_true] at hmarks ⊢
      exact ⟨hmarks.1, ih _ hmarks.2⟩
    | stop bracket =>
      cases opened with
      | nil => simp [balanced] at hmarks
      | cons innermost opened =>
        simp only [List.cons_append, balanced, Bool.and_eq_true] at hmarks ⊢
        exact ⟨hmarks.1, ih _ hmarks.2⟩

theorem flatMap_marks_eq_nil (h : ∀ op ∈ ops, op.marks = []) : ops.flatMap CreateOp.marks = [] :=
  List.flatMap_eq_nil_iff.2 h

namespace Enclosed

variable {inBlock : Bool} {n n' : Nat} {ops ops' : List CreateOp}

theorem grows (h : Enclosed inBlock n ops ops' n') :
    Grows n n' (ops.flatMap CreateOp.xrefs) (ops'.flatMap CreateOp.xrefs) := by
  induction h with
  | nil => exact Grows.refl _ _
  | keep _ _ ih =>
    simp only [List.flatMap_cons]
    exact (Grows.refl _ _).append ih
  | @lone n _ icu middle ops ops' _ _ ih =>
    have hframe := Grows.refl n (CreateOp.xrefs (.icuStart icu) ++ middle.flatMap CreateOp.xrefs ++
      CreateOp.xrefs (.icuEnd icu.xref))
    have hstart : CreateOp.xrefs (icuBlockStart n icu.message) = [⟨n⟩] := rfl
    have hend : CreateOp.xrefs (icuBlockEnd n) = [] := rfl
    refine ((hframe.append (Grows.fresh n)).append ih).subperm ?_ ?_
    · intro x
      simp only [List.flatMap_cons, List.flatMap_append, List.count_append, List.count_nil]
      omega
    · intro x
      simp only [List.flatMap_cons, List.flatMap_append, List.count_append, hstart, hend,
        List.count_nil]
      omega

theorem features_eq (h : Enclosed inBlock n ops ops' n') :
    ops'.flatMap CreateOp.features = ops.flatMap CreateOp.features := by
  induction h with
  | nil => rfl
  | keep _ _ ih => simp only [List.flatMap_cons, ih]
  | lone _ _ ih =>
    simp [CreateOp.features, icuBlockStart, icuBlockEnd, ih]

theorem tags_eq (h : Enclosed inBlock n ops ops' n') :
    ops'.flatMap CreateOp.tags = ops.flatMap CreateOp.tags := by
  induction h with
  | nil => rfl
  | keep _ _ ih => simp only [List.flatMap_cons, ih]
  | lone _ _ ih =>
    simp [CreateOp.tags, icuBlockStart, icuBlockEnd, ih]

theorem edits (h : Enclosed inBlock n ops ops' n') : Phase.wrapI18nIcus.Edits ops ops' := by
  induction h with
  | nil => exact .nil
  | keep _ _ ih => exact .alter (.keep trivial) ih
  | lone _ _ ih =>
    refine .insert rfl (.alter (.keep trivial) ?_)
    exact (Phase.Edits.refl (fun _ => by trivial) _).append (.alter (.keep trivial) (.insert rfl ih))

theorem sound (h : Enclosed inBlock n ops ops' n') (hops : ∀ op ∈ ops, op.Sound) :
    ∀ op ∈ ops', op.Sound := by
  induction h with
  | nil => exact hops
  | keep _ _ ih =>
    rw [List.forall_mem_cons] at hops ⊢
    exact ⟨hops.1, ih hops.2⟩
  | lone _ _ ih =>
    have hstart : ∀ n message, (icuBlockStart n message).Sound :=
      fun _ _ => ⟨rfl, by simp [icuBlockStart, CreateOp.lists]⟩
    have hend : ∀ n, (icuBlockEnd n).Sound :=
      fun _ => ⟨rfl, by simp [icuBlockEnd, CreateOp.lists]⟩
    simp only [List.forall_mem_cons, List.forall_mem_append] at hops ⊢
    obtain ⟨hicu, hmiddle, hstop, hrest⟩ := hops
    exact ⟨hstart _ _, hicu, hmiddle, hstop, hend _, ih hrest⟩

theorem blocks_kept (h : Enclosed inBlock n ops ops' n') {block : Block}
    (hblock : block ∈ ops.flatMap CreateOp.blocks) : block ∈ ops'.flatMap CreateOp.blocks := by
  induction h with
  | nil => exact hblock
  | keep _ _ ih =>
    simp only [List.flatMap_cons, List.mem_append] at hblock ⊢
    exact hblock.imp_right ih
  | lone _ _ ih =>
    simp only [List.flatMap_cons, List.flatMap_append, List.mem_append] at hblock ⊢
    rcases hblock with hblock | hblock | hblock | hblock
    · exact .inr (.inl hblock)
    · exact .inr (.inr (.inl hblock))
    · exact .inr (.inr (.inr (.inl hblock)))
    · exact .inr (.inr (.inr (.inr (.inr (ih hblock)))))

theorem blocks_new (h : Enclosed inBlock n ops ops' n') {block : Block}
    (hblock : block ∈ ops'.flatMap CreateOp.blocks) :
    block ∈ ops.flatMap CreateOp.blocks ∨ block.root = block.xref := by
  induction h with
  | nil => exact .inl hblock
  | keep _ _ ih =>
    simp only [List.flatMap_cons, List.mem_append] at hblock ⊢
    rcases hblock with hblock | hblock
    · exact .inl (.inl hblock)
    · exact (ih hblock).imp_left .inr
  | @lone n _ icu _ _ _ _ _ ih =>
    have hstart : CreateOp.blocks (icuBlockStart n icu.message) = [⟨⟨n⟩, ⟨n⟩, icu.message⟩] := rfl
    have hend : CreateOp.blocks (icuBlockEnd n) = [] := rfl
    simp only [List.flatMap_cons, List.flatMap_append, List.mem_append, hstart, hend,
      List.mem_singleton, List.not_mem_nil, false_or] at hblock ⊢
    rcases hblock with rfl | hblock | hblock | hblock | hblock
    · exact .inr rfl
    · exact .inl (.inl hblock)
    · exact .inl (.inr (.inl hblock))
    · exact .inl (.inr (.inr (.inl hblock)))
    · exact (ih hblock).imp_left fun h => .inr (.inr (.inr h))

theorem balanced (h : Enclosed inBlock n ops ops' n') (opened : List Bracket)
    (hops : TemplateLowering.balanced opened (ops.flatMap CreateOp.marks) = true) :
    TemplateLowering.balanced opened (ops'.flatMap CreateOp.marks) = true := by
  induction h generalizing opened with
  | nil => exact hops
  | keep _ _ ih =>
    simp only [List.flatMap_cons] at hops ⊢
    exact balanced_append_imp ih _ opened hops
  | lone hmiddle _ ih =>
    simp only [List.flatMap_cons, List.flatMap_append, flatMap_marks_eq_nil hmiddle,
      List.nil_append, CreateOp.marks, icuBlockStart, icuBlockEnd, List.singleton_append,
      TemplateLowering.balanced, decide_true, Bool.true_and, Bool.and_eq_true] at hops ⊢
    exact ⟨hops.1, rfl, ih opened hops.2⟩

theorem covered (h : Enclosed inBlock n ops ops' n') :
    TemplateLowering.covered inBlock (ops'.flatMap CreateOp.marks) = true := by
  induction h with
  | nil => rfl
  | keep hicu _ ih =>
    rw [List.flatMap_cons, CreateOp.covered_marks_append hicu]
    exact ih
  | lone hmiddle _ ih =>
    simp only [List.flatMap_cons, List.flatMap_append, flatMap_marks_eq_nil hmiddle,
      List.nil_append]
    exact ih

end Enclosed

/-! ## Wrapping along the chain -/

section Chain

open OpList

variable {l l' : OpList CreateOp} {front middle back : List Nat} {i j : Nat}

/-- The nodes of a list are still there with their operations. -/
structure Extends (l l' : OpList CreateOp) : Prop where
  id : l'.id = l.id
  size : l.nodes.size ≤ l'.nodes.size
  op? : ∀ k, k < l.nodes.size → l'.op? k = l.op? k
  opId : ∀ k, l'.opId k = l.opId k

theorem Extends.refl (l : OpList CreateOp) : Extends l l :=
  ⟨rfl, Nat.le_refl _, fun _ _ => rfl, fun _ => rfl⟩

theorem Extends.trans {l₁ l₂ l₃ : OpList CreateOp} (h : Extends l₁ l₂) (h' : Extends l₂ l₃) :
    Extends l₁ l₃ := by
  refine ⟨h'.id.trans h.id, Nat.le_trans h.size h'.size, ?_,
    fun k => (h'.opId k).trans (h.opId k)⟩
  intro k hk
  rw [h'.op? k (Nat.lt_of_lt_of_le hk h.size), h.op? k hk]

theorem extends_of_alloc (h : SameArena (l.alloc op) l') :
    Extends l l' ∧ l'.op? l.nodes.size = some op ∧ l'.nodes.size = l.nodes.size + 1 := by
  have hsize : l'.nodes.size = l.nodes.size + 1 := by rw [h.size, nodes_size_alloc]
  refine ⟨⟨h.id, by omega, ?_, h.opId⟩, ?_, hsize⟩
  · intro k hk
    rw [h.op?, op?_alloc, if_neg (Nat.ne_of_lt hk)]
  · rw [h.op?, op?_alloc, if_pos rfl]

/-- The linked operations along a part of the chain, with their handles. -/
def entriesAlong (l : OpList CreateOp) (indices : List Nat) : List (OpId × CreateOp) :=
  indices.filterMap fun index => (l.op? index).map (l.opId index, ·)

theorem Extends.filterMap_op? (h : Extends l l') (hback : ∀ k ∈ back, k < l.nodes.size) :
    back.filterMap l'.op? = back.filterMap l.op? :=
  List.filterMap_congr fun k hk => h.op? k (hback k hk)

theorem Extends.entriesAlong (h : Extends l l') (hback : ∀ k ∈ back, k < l.nodes.size) :
    entriesAlong l' back = entriesAlong l back := by
  apply List.filterMap_congr
  intro k hk
  rw [h.op? k (hback k hk), h.opId]

theorem wrapIcu_chain (n : Nat) (message : I18n.Message)
    (h : l.Chain (front ++ i :: (middle ++ j :: back))) :
    ∃ l' first last, Yields (wrapIcu ⟨n⟩ ⟨l.opId i, some (l.opId j), message⟩) l () l' ∧
      l'.Chain (front ++ first :: i :: (middle ++ j :: last :: back)) ∧ Extends l l' ∧
      l'.op? first = some (icuBlockStart n message) ∧ l'.op? last = some (icuBlockEnd n) ∧
      first < l'.nodes.size ∧ last < l'.nodes.size := by
  have hstart : ListOp.isListEnd (icuBlockStart n message) = false := rfl
  have hend : ListOp.isListEnd (icuBlockEnd n) = false := rfl
  obtain ⟨id₁, l₁, hbefore, hchain₁, hsame₁⟩ := h.insertBefore hstart
  obtain ⟨hextends₁, hop₁, hsize₁⟩ := extends_of_alloc hsame₁
  have hcut : l₁.Chain ((front ++ l.nodes.size :: i :: (middle ++ [j])) ++ back) := by
    simpa using hchain₁
  obtain ⟨id₂, l₂, hafter, hchain₂, hsame₂⟩ := hcut.insertAfter hend
  obtain ⟨hextends₂, hop₂, hsize₂⟩ := extends_of_alloc hsame₂
  have hlast : (front ++ l.nodes.size :: i :: (middle ++ [j])).getLastD headIndex = j := by
    have hconcat : front ++ l.nodes.size :: i :: (middle ++ [j]) =
        (front ++ l.nodes.size :: i :: middle) ++ [j] := by simp
    rw [hconcat, List.getLastD_concat]
  rw [hlast, hextends₁.opId] at hafter
  refine ⟨l₂, l.nodes.size, l₁.nodes.size, ?_, by simpa using hchain₂, hextends₁.trans hextends₂,
    ?_, hop₂, by omega, by omega⟩
  · simp only [wrapIcu, yields_bind, yields_pure]
    exact ⟨id₁, l₁, hbefore, id₂, l₂, hafter, trivial, rfl⟩
  · rw [hextends₂.op? _ (by omega), hop₁]

def numbered (n : Nat) : List LoneIcu → List (Xref × LoneIcu)
  | [] => []
  | icu :: icus => (⟨n⟩, icu) :: numbered (n + 1) icus

/-- Wrapping the ICU expressions in a list whose chain begins with `front` encloses the operations
behind that. -/
def Wraps (l : OpList CreateOp) (front : List Nat) (inBlock : Bool) (n : Nat)
    (ops : List CreateOp) (icus : List LoneIcu) : Prop :=
  ∃ l' back, Yields ((numbered n icus).forM fun (xref, icu) => wrapIcu xref icu) l () l' ∧
    l'.Chain (front ++ back) ∧ Extends l l' ∧
    Enclosed inBlock n ops (back.filterMap l'.op?) (n + icus.length)

theorem wraps_nil {n : Nat} (h : l.Chain front) : Wraps l front inBlock n [] [] :=
  ⟨l, [], yields_pure.2 ⟨rfl, rfl⟩, by simpa using h, .refl l, .nil⟩

theorem Wraps.keep {n : Nat} {icus : List LoneIcu} (hi : i < l.nodes.size) (hop : l.op? i = some op)
    (hicu : inBlock = true ∨ op.isIcuStart = false)
    (h : Wraps l (front ++ [i]) (op.inBlockAfter inBlock) n ops icus) :
    Wraps l front inBlock n (op :: ops) icus := by
  obtain ⟨l', back, hyields, hchain, hextends, henclosed⟩ := h
  refine ⟨l', i :: back, hyields, by simpa using hchain, hextends, ?_⟩
  rw [List.filterMap_cons, hextends.op? i hi, hop]
  exact .keep hicu henclosed

theorem Wraps.lone {n : Nat} {icu : IcuStart} {icus : List LoneIcu}
    (hchain : l.Chain (front ++ i :: (middle ++ j :: back))) (hi : l.op? i = some (.icuStart icu))
    (hj : l.op? j = some (.icuEnd icu.xref))
    (hmiddle : ∀ op ∈ middle.filterMap l.op?, op.marks = [])
    (h : ∀ l' front', l'.Chain (front' ++ back) → Extends l l' →
      Wraps l' front' false (n + 1) ops icus) :
    Wraps l front false n
      (.icuStart icu :: (middle.filterMap l.op? ++ .icuEnd icu.xref :: ops))
      (⟨l.opId i, some (l.opId j), icu.message⟩ :: icus) := by
  obtain ⟨l₁, first, last, hwrap, hchain₁, hextends₁, hfirst, hlast, hfirst', hlast'⟩ :=
    wrapIcu_chain n icu.message hchain
  have hcut : l₁.Chain ((front ++ first :: i :: (middle ++ [j, last])) ++ back) := by
    simpa using hchain₁
  obtain ⟨l₂, back', hyields, hchain₂, hextends₂, henclosed⟩ := h l₁ _ hcut hextends₁
  have hold : ∀ k ∈ i :: (middle ++ j :: back), k < l.nodes.size :=
    fun k hk => hchain.lt_size (List.mem_append_right _ hk)
  have hextends := hextends₁.trans hextends₂
  refine ⟨l₂, first :: i :: (middle ++ j :: last :: back'), ?_, by simpa using hchain₂, hextends, ?_⟩
  · exact yields_bind.2 ⟨(), l₁, hwrap, hyields⟩
  · have hcontent : (first :: i :: (middle ++ j :: last :: back')).filterMap l₂.op? =
        icuBlockStart n icu.message :: .icuStart icu :: (middle.filterMap l.op? ++
          .icuEnd icu.xref :: icuBlockEnd n :: back'.filterMap l₂.op?) := by
      have hkept : middle.filterMap l₂.op? = middle.filterMap l.op? :=
        hextends.filterMap_op? fun k hk => hold k (by simp [hk])
      simp only [List.filterMap_cons, List.filterMap_append, hextends₂.op? first hfirst', hfirst,
        hextends₂.op? last hlast', hlast, hextends.op? i (hold i (by simp)), hi,
        hextends.op? j (hold j (by simp)), hj, hkept]
    have hnumber : n + (icus.length + 1) = n + 1 + icus.length := by omega
    rw [hcontent, List.length_cons, hnumber]
    exact .lone hmiddle henclosed

/-! ## Walking along the chain -/

theorem loneIcus_cons_of_keep {id : OpId} {rest : List (OpId × CreateOp)}
    (h : inBlock = true ∨ op.isIcuStart = false) :
    loneIcus inBlock none ((id, op) :: rest) = loneIcus (op.inBlockAfter inBlock) none rest := by
  cases op with
  | icuStart icu =>
    have hblock : inBlock = true := by simpa [CreateOp.isIcuStart] using h
    simp [loneIcus, CreateOp.inBlockAfter, hblock]
  | _ => rfl

theorem loneIcus_cons_of_marks_eq_nil {pending : Option (OpId × I18n.Message)} {id : OpId}
    {rest : List (OpId × CreateOp)} (h : op.marks = []) :
    loneIcus false pending ((id, op) :: rest) = loneIcus false pending rest := by
  cases op with
  | elementStart | elementEnd | containerStart | containerEnd | i18nStart | i18nEnd | icuStart
  | icuEnd => simp [CreateOp.marks] at h
  | _ => cases pending <;> rfl

theorem balanced_of_append {marks rest : List Mark} {opened : List Bracket}
    (h : balanced opened (marks ++ rest) = true) : ∃ opened', balanced opened' rest = true := by
  induction marks generalizing opened with
  | nil => exact ⟨opened, h⟩
  | cons mark marks ih =>
    cases mark with
    | start bracket =>
      simp only [List.cons_append, balanced, Bool.and_eq_true] at h
      exact ih h.2
    | stop bracket =>
      cases opened with
      | nil => simp [balanced] at h
      | cons innermost opened =>
        simp only [List.cons_append, balanced, Bool.and_eq_true] at h
        exact ih h.2

theorem CreateOp.marks_in_icu {xref : Xref} {opened : List Bracket} {rest : List Mark}
    (h : balanced (⟨.icu, xref⟩ :: opened) (op.marks ++ rest) = true) :
    (op.marks = [] ∧ balanced (⟨.icu, xref⟩ :: opened) rest = true) ∨
      op = .icuEnd xref ∧ balanced opened rest = true := by
  cases op with
  | icuEnd other =>
    simp only [marks, List.singleton_append, balanced, Bool.and_eq_true, decide_eq_true_eq,
      Bracket.mk.injEq, true_and] at h
    exact .inr ⟨by rw [h.1], h.2⟩
  | elementStart | containerStart | i18nStart | icuStart =>
    simp [marks, balanced, admitsStart] at h
  | elementEnd | containerEnd | i18nEnd => simp [marks, balanced] at h
  | _ => exact .inl ⟨rfl, h⟩

theorem entriesAlong_cons (hop : l.op? i = some op) :
    entriesAlong l (i :: back) = (l.opId i, op) :: entriesAlong l back := by
  simp [entriesAlong, hop]

/-- The induction follows the chain.  Outside an ICU expression that is to be wrapped the next
operation is kept; inside one, the operations up to its end are collected in `middle`. -/
theorem wraps_along (back : List Nat) :
    (∀ (l : OpList CreateOp) (front : List Nat) (inBlock : Bool) (n : Nat) (opened : List Bracket),
      l.Chain (front ++ back) →
      balanced opened ((back.filterMap l.op?).flatMap CreateOp.marks) = true →
      Wraps l front inBlock n (back.filterMap l.op?)
        (loneIcus inBlock none (entriesAlong l back))) ∧
    ∀ (l : OpList CreateOp) (front middle : List Nat) (i : Nat) (icu : IcuStart) (n : Nat)
      (opened : List Bracket),
      l.Chain (front ++ i :: (middle ++ back)) → l.op? i = some (.icuStart icu) →
      (∀ op ∈ middle.filterMap l.op?, op.marks = []) →
      balanced (⟨.icu, icu.xref⟩ :: opened)
        ((back.filterMap l.op?).flatMap CreateOp.marks) = true →
      Wraps l front false n
        (.icuStart icu :: (middle.filterMap l.op? ++ back.filterMap l.op?))
        (loneIcus false (some (l.opId i, icu.message)) (entriesAlong l back)) := by
  induction back with
  | nil =>
    refine ⟨?_, ?_⟩
    · intro l front inBlock n opened hchain _
      exact wraps_nil (by simpa using hchain)
    · intro l front middle i icu n opened _ _ _ hbalanced
      simp [balanced] at hbalanced
  | cons j back ih =>
    obtain ⟨ihkeep, ihicu⟩ := ih
    refine ⟨?_, ?_⟩
    · intro l front inBlock n opened hchain hbalanced
      obtain ⟨op, hop⟩ := hchain.exists_op? (i := j) (by simp)
      have hj : j < l.nodes.size := hchain.lt_size (by simp)
      rw [List.filterMap_cons, hop, List.flatMap_cons] at hbalanced
      rw [List.filterMap_cons, hop, entriesAlong_cons hop]
      have hcut : l.Chain ((front ++ [j]) ++ back) := by simpa using hchain
      by_cases hkeep : inBlock = true ∨ op.isIcuStart = false
      · obtain ⟨opened', hrest⟩ := balanced_of_append hbalanced
        rw [loneIcus_cons_of_keep hkeep]
        exact .keep hj hop hkeep (ihkeep l _ _ n opened' hcut hrest)
      · obtain ⟨hblock, hicu⟩ := not_or.1 hkeep
        obtain rfl : inBlock = false := by simpa using hblock
        cases op with
        | icuStart icu =>
          simp only [CreateOp.marks, List.singleton_append, balanced, Bool.and_eq_true]
            at hbalanced
          exact ihicu l front [] j icu n opened (by simpa using hchain) hop (by simp) hbalanced.2
        | _ => exact absurd rfl hicu
    · intro l front middle i icu n opened hchain hi hmiddle hbalanced
      obtain ⟨op, hop⟩ := hchain.exists_op? (i := j) (by simp)
      rw [List.filterMap_cons, hop, List.flatMap_cons] at hbalanced
      rw [List.filterMap_cons, hop, entriesAlong_cons hop]
      rcases CreateOp.marks_in_icu hbalanced with ⟨hmarks, hrest⟩ | ⟨rfl, hrest⟩
      · have hcut : l.Chain (front ++ i :: ((middle ++ [j]) ++ back)) := by simpa using hchain
        have hcontent : (middle ++ [j]).filterMap l.op? = middle.filterMap l.op? ++ [op] := by
          simp [List.filterMap_append, hop]
        have hmiddle' : ∀ op ∈ (middle ++ [j]).filterMap l.op?, op.marks = [] := by
          rw [hcontent, List.forall_mem_append]
          exact ⟨hmiddle, by simpa using hmarks⟩
        have hwraps := ihicu l front (middle ++ [j]) i icu n opened hcut hi hmiddle' hrest
        rw [hcontent, List.append_assoc] at hwraps
        rw [loneIcus_cons_of_marks_eq_nil hmarks]
        exact hwraps
      · refine Wraps.lone hchain hi hop hmiddle ?_
        intro l' front' hchain' hextends
        have hold : ∀ k ∈ back, k < l.nodes.size := fun k hk => hchain.lt_size (by simp [hk])
        have hwraps := ihkeep l' front' false (n + 1) opened hchain' (by
          rw [hextends.filterMap_op? hold]
          exact hrest)
        rw [hextends.filterMap_op? hold, hextends.entriesAlong hold] at hwraps
        exact hwraps

end Chain

/-! ## The pass -/

theorem yields_numbered (icus : List LoneIcu) (s : Ids) :
    Yields (icus.mapM fun icu => do
      let xref ← (Ids.freshXref : StateT Ids (Except Fault) Xref)
      return (xref, icu)) s (numbered s.nextXref icus)
      { s with nextXref := s.nextXref + icus.length } := by
  induction icus generalizing s with
  | nil => exact yields_pure.2 ⟨rfl, rfl⟩
  | cons icu icus ih =>
    have hrest := ih { s with nextXref := s.nextXref + 1 }
    have hnumber : s.nextXref + (icus.length + 1) = s.nextXref + 1 + icus.length := by omega
    simp only [List.mapM_cons, yields_bind, yields_pure, yields_freshXref_pass]
    rw [List.length_cons, hnumber]
    exact ⟨_, _, ⟨_, _, ⟨rfl, rfl⟩, rfl, rfl⟩, _, _, hrest, rfl, rfl⟩

theorem View.Sound.turns_of_enclosed {view : View} (hview : view.Sound) {n n' : Nat}
    {create : OpList CreateOp} (hcreate : create.Linked)
    (h : Enclosed false n view.create.toList create.toList n') :
    view.Turns id n n' { view with create } := by
  have hfeatures : View.features { view with create } = view.features := h.features_eq
  have hskeleton : View.skeleton { view with create } = view.skeleton := by
    simp only [View.skeleton, hfeatures]
  have htags : ∀ tag ∈ View.tags { view with create }, tag ∈ view.tags := by
    intro tag htag
    rwa [View.tags, h.tags_eq] at htag
  have hreshapes : view.outline.Reshapes id (View.outline { view with create }) :=
    ⟨hskeleton, h.balanced [], fun _ _ => h.covered, htags, rfl⟩
  refine ⟨View.grows_of_create rfl h.grows rfl, hreshapes,
    ⟨hcreate, h.sound hview.createOps, hview.update⟩, ?_, ?_⟩
  · intro block hblock
    exact h.blocks_kept hblock
  · intro block hblock
    exact h.blocks_new hblock

theorem View.Sound.exists_enclosed {view : View} (hview : view.Sound)
    (hbalanced : balanced [] view.marks = true) (s : Ids) :
    ∃ create t, Yields view.wrapIcus s { view with create } t ∧ create.Linked ∧
      create.id = view.create.id ∧ t.nextList = s.nextList ∧
      Enclosed false s.nextXref view.create.toList create.toList t.nextXref := by
  obtain ⟨indices, hchain⟩ := hview.create
  have hmarks : balanced [] ((indices.filterMap view.create.op?).flatMap CreateOp.marks) = true := by
    rw [← hchain.toList_eq]
    exact hbalanced
  obtain ⟨create, indices', hedit, hchain', hextends, henclosed⟩ :=
    (wraps_along indices).1 view.create [] false s.nextXref [] (by simpa using hchain) hmarks
  have hentries : entriesAlong view.create indices = view.create.entries := by
    rw [OpList.entries, hchain.indices_eq, entriesAlong]
  rw [List.nil_append] at hchain'
  rw [← hchain.toList_eq, ← hchain'.toList_eq, hentries] at henclosed
  rw [hentries] at hedit
  have hnumbers := yields_numbered (loneIcus false none view.create.entries) s
  refine ⟨create,
    { s with nextXref := s.nextXref + (loneIcus false none view.create.entries).length }, ?_,
    ⟨indices', hchain'⟩, hextends.id, rfl, henclosed⟩
  simp only [View.wrapIcus, yields_bind, yields_pure, yields_lift]
  exact ⟨_, _, hnumbers, create, _, ⟨editList_eq_ok hedit, rfl⟩, rfl, rfl⟩

theorem View.Sound.wrapIcus {view : View} (hview : view.Sound)
    (hbalanced : balanced [] view.marks = true) (s : Ids) :
    ∃ view' t, Yields view.wrapIcus s view' t ∧
      view.Turns id s.nextXref t.nextXref view' ∧ covered false view'.marks = true ∧
      view.EditedBy .wrapI18nIcus view' := by
  obtain ⟨create, t, hyields, hcreate, hid, -, henclosed⟩ := hview.exists_enclosed hbalanced s
  exact ⟨{ view with create }, t, hyields, hview.turns_of_enclosed hcreate henclosed,
    henclosed.covered, ⟨View.sameFrame_of_create hid, henclosed.edits, .refl _ _⟩⟩

theorem Job.wrapI18nIcus_turns {job : Job} (hsound : job.Sound)
    (hrooted : job.Rooted) (hbalanced : job.Balanced) :
    ∃ job', job.wrapI18nIcus = .ok job' ∧ job.Turns id job' ∧
      job'.Covered ∧
      List.Forall₂ (View.EditedBy .wrapI18nIcus) job.units job'.units := by
  obtain ⟨job', hrun, hthreads, hkind⟩ := total_mapUnitsFresh fun view hview s =>
    (hsound view hview).wrapIcus (hbalanced view hview) s
  have hturns := hthreads.imp fun _ _ _ _ _ h => h.1
  refine ⟨job', hrun, turns_of_threads Ids.nextXref hturns hkind rfl rfl hrooted, ?_,
    hthreads.forall₂ fun _ _ _ _ _ h => h.2.2⟩
  have hcovered : List.Forall₂ (fun _ view' => covered false (View.marks view') = true) job.units
      job'.units := hthreads.forall₂ fun _ _ _ _ _ h => h.2.1
  intro view' hview'
  obtain ⟨view, hview, h⟩ := exists_left_of_mem hcovered hview'
  exact h

end TemplateLowering
