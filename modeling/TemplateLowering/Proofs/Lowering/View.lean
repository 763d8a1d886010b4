import TemplateLowering.Proofs.Lowering.Text

/-!
# Embedded views

A view is lowered into a fragment of its own, which is then embedded in the fragment of the view
around it.  Until an operation of that view declares the new view, it is pending.
-/

namespace TemplateLowering

open Fragment

variable {facts : JobFacts} {view : Xref} {s t : Ids}

/-! ## Translated blocks -/

/-- The start and the end of a translated block, or nothing. -/
structure Brackets (s t : Ids) (opening closing : List CreateOp) : Prop where
  grows : Grows s.nextXref t.nextXref [] (opening.flatMap CreateOp.xrefs)
  noXrefs : closing.flatMap CreateOp.xrefs = []
  declared : opening.flatMap CreateOp.declaredViews = [] ∧
    closing.flatMap CreateOp.declaredViews = []
  lowered : (∀ op ∈ opening, op.Lowered) ∧ ∀ op ∈ closing, op.Lowered
  nested : ∀ {marks}, Nested marks →
    Nested (opening.flatMap CreateOp.marks ++ marks ++ closing.flatMap CreateOp.marks)

theorem brackets_nil (s : Ids) : Brackets s s [] [] :=
  ⟨Grows.refl _ _, rfl, ⟨rfl, rfl⟩, ⟨by simp, by simp⟩, fun h => by simpa using h⟩

theorem lowerBlockBrackets_spec {i18n : Option I18n.Meta} {startSpan : SourceSpan}
    {endSpan : Option SourceSpan} {opening closing : List CreateOp}
    (h : Yields (lowerBlockBrackets i18n startSpan endSpan) s (opening, closing) t) :
    Brackets s t opening closing := by
  unfold lowerBlockBrackets at h
  split at h
  · simp only [yields_bind, yields_freshXref, yields_pure, Prod.mk.injEq] at h
    obtain ⟨_, _, ⟨rfl, rfl⟩, ⟨rfl, rfl⟩, rfl⟩ := h
    refine ⟨?_, rfl, ⟨rfl, rfl⟩, ⟨?_, ?_⟩, ?_⟩
    · simpa [CreateOp.xrefs, CreateOp.declared, CreateOp.exprs, CreateOp.lists] using
        Grows.fresh s.nextXref
    · simpa using ⟨⟨rfl, by simp [CreateOp.lists]⟩, by simp [CreateOp.blocks]⟩
    · simpa using CreateOp.lowered_of_lists_eq_nil rfl rfl rfl
    · intro marks hmarks
      simpa [CreateOp.marks] using hmarks.enclose ⟨.block, ⟨s.nextXref⟩⟩ (by simp)
  · simp only [yields_pure, Prod.mk.injEq] at h
    obtain ⟨⟨rfl, rfl⟩, rfl⟩ := h
    exact brackets_nil s

theorem Brackets.fits {lo hi : Nat} {opening closing : List CreateOp} {content : Fragment}
    (h : Brackets s t opening closing) (hcontent : content.Fits view lo hi) :
    (Fragment.mk opening [] [] ++ content ++ Fragment.mk closing [] []).Fits view lo hi := by
  refine ⟨?_, ?_, ?_, ?_⟩
  · intro edge
    have hedge := hcontent.edges edge
    simpa [h.declared] using hedge
  · exact hcontent.ordered.of_views_eq (by simp)
  · exact .append (.append (sound_ops h.lowered.1 (by simp)) hcontent.sound)
      (sound_ops h.lowered.2 (by simp))
  · simpa using h.nested hcontent.nested

/-! ## Embedding -/

section Embed

variable (ids : ViewIds) (content : Fragment) (contextVariables : OrderedMap String String)
  (aliases : List AliasVariable)

theorem count_xrefs_embed (x : Xref) :
    (embed ids view content contextVariables aliases).xrefs.count x =
      [ids.xref].count x + content.xrefs.count x := by
  have hcreate := (OpList.lists_ofList ids.createList content.create).toList
  have hupdate := (OpList.lists_ofList ids.updateList content.update).toList
  simp [embed, Fragment.xrefs, View.xrefs, ViewIds.view, hcreate, hupdate, List.count_cons]
  omega

theorem declarations_embed :
    (embed ids view content contextVariables aliases).declarations view =
      content.declarations ids.xref := by
  have hcreate := (OpList.lists_ofList ids.createList content.create).toList
  simp [embed, Fragment.declarations, View.declaredViews, ViewIds.view, hcreate]

theorem parentage_embed :
    (embed ids view content contextVariables aliases).parentage =
      (some view, ids.xref) :: content.parentage :=
  rfl

theorem ordered_embed {lo hi : Nat} {content : Fragment} (h : content.Ordered lo hi)
    (hlo : ids.xref.index < lo) (hhi : lo ≤ hi) :
    (embed ids view content contextVariables aliases).Ordered ids.xref.index hi := by
  constructor
  · intro inner hinner
    rcases List.mem_cons.1 hinner with rfl | hinner
    · exact ⟨Nat.le_refl _, by simpa [ViewIds.view] using Nat.lt_of_lt_of_le hlo hhi⟩
    · have hrange := h.range inner hinner
      omega
  · refine List.pairwise_cons.2 ⟨?_, h.sorted⟩
    intro inner hinner
    have hrange := (h.range inner hinner).1
    simp only [ViewIds.view]
    omega

theorem sound_embed {content : Fragment} (h : content.Sound) (hnested : Nested content.marks)
    (hparent : view.index < ids.xref.index) :
    (embed ids view content contextVariables aliases).Sound := by
  have hcreate := OpList.lists_ofList ids.createList content.create
  have hupdate := OpList.lists_ofList ids.updateList content.update
  refine ⟨by simp [embed], by simp [embed], ?_, ?_⟩
  · intro inner hinner
    rcases List.mem_cons.1 hinner with rfl | hinner
    · refine ⟨⟨hcreate.linked, ?_, hupdate.linked, ?_⟩, ?_, ?_⟩
      · intro op hop
        rw [ViewIds.view, hcreate.toList] at hop
        exact (h.create op hop).sound
      · intro op hop
        rw [ViewIds.view, hupdate.toList] at hop
        exact h.update op hop
      · intro block hblock
        rw [View.blocks, ViewIds.view, hcreate.toList] at hblock
        obtain ⟨op, hop, hblock⟩ := List.mem_flatMap.1 hblock
        exact (h.create op hop).roots block hblock
      · rw [View.marks, ViewIds.view, hcreate.toList]
        exact hnested
    · exact h.views inner hinner
  · intro inner hinner parent hparent'
    rcases List.mem_cons.1 hinner with rfl | hinner
    · obtain rfl : view = parent := by simpa [ViewIds.view] using hparent'
      exact hparent
    · exact h.parents inner hinner parent hparent'

end Embed

variable {ids : ViewIds} {u v : Ids} {content : Fragment}

theorem awaits_embed {lo hi : Nat} (hcontent : content.Fits ids.xref lo hi)
    (hparent : view.index < ids.xref.index) (hlo : ids.xref.index < lo) (hhi : lo ≤ hi)
    (contextVariables : OrderedMap String String) (aliases : List AliasVariable) :
    (embed ids view content contextVariables aliases).Awaits view ids.xref.index hi [ids.xref] := by
  refine ⟨?_, ?_, ?_, ?_⟩
  · intro edge
    have hedge := hcontent.edges edge
    simp [declarations_embed, parentage_embed, List.count_cons] at hedge ⊢
    omega
  · exact ordered_embed ids contextVariables aliases hcontent.ordered hlo hhi
  · exact sound_embed ids contextVariables aliases hcontent.sound hcontent.nested hparent
  · exact Nested.nil

/-! ## Lowering the content of a view -/

theorem freshView_spec (h : Yields (Ids.freshView : Lower ViewIds) s ids t) :
    ids.xref = ⟨s.nextXref⟩ ∧ t.nextXref = s.nextXref + 1 := by
  obtain ⟨rfl, rfl⟩ := yields_freshView.1 h
  exact ⟨rfl, rfl⟩

theorem index_lt_of_freshView (h : Yields (Ids.freshView : Lower ViewIds) s ids u)
    (hle : u.nextXref ≤ v.nextXref) : ids.xref.index < v.nextXref := by
  obtain ⟨hxref, hnext⟩ := freshView_spec h
  rw [hxref]
  simp only
  omega

theorem awaits_lowered (hview : view.index < s.nextXref)
    (hids : Yields (Ids.freshView : Lower ViewIds) s ids u) (hle : u.nextXref ≤ v.nextXref)
    (hcontent : content.Lowered ids.xref v t)
    (contextVariables : OrderedMap String String) (aliases : List AliasVariable) :
    (embed ids view content contextVariables aliases).Awaits view s.nextXref t.nextXref
      [ids.xref] := by
  obtain ⟨hxref, hnext⟩ := freshView_spec hids
  have hindex : ids.xref.index = s.nextXref := by rw [hxref]
  have hparent : view.index < ids.xref.index := by omega
  have hawaits := awaits_embed hcontent.fits hparent (by omega) hcontent.grows.le
    contextVariables aliases
  exact hawaits.mono (by omega) (Nat.le_refl _)

theorem grows_freshView (h : Yields (Ids.freshView : Lower ViewIds) s ids t) :
    Grows s.nextXref t.nextXref [] [ids.xref] := by
  obtain ⟨hxref, hnext⟩ := freshView_spec h
  rw [hxref, hnext]
  exact Grows.fresh s.nextXref

theorem grows_embedded {others : List Xref} (hids : Yields (Ids.freshView : Lower ViewIds) s ids u)
    (hothers : Grows u.nextXref v.nextXref [] others) (hcontent : content.Lowered ids.xref v t)
    (view : Xref) (contextVariables : OrderedMap String String) (aliases : List AliasVariable) :
    Grows s.nextXref t.nextXref []
      (others ++ (embed ids view content contextVariables aliases).xrefs) := by
  refine (((grows_freshView hids).append hothers).append hcontent.grows).subperm
    (fun _ => Nat.le_refl _) ?_
  intro x
  simp [count_xrefs_embed, List.count_cons]
  omega

end TemplateLowering
