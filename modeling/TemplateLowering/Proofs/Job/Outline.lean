import TemplateLowering.Proofs.Op.Shape

/-!
# Outlines of views

The outline of a view is what the passes rely on in its operations.  Most passes change operations
in place, so that the outline stays the same, and add operations that do not show in it.  What a
pass may do to a view beyond that is `Reshapes`, and what it does to a whole job is `Turns`.
-/

namespace TemplateLowering

section Related

variable {α β γ : Type} {R : α → β → Prop} {as : List α} {bs : List β}

theorem exists_right_of_mem {a : α} (h : List.Forall₂ R as bs) (ha : a ∈ as) : ∃ b ∈ bs, R a b := by
  induction h with
  | nil => simp at ha
  | cons hab _ ih =>
    rcases List.mem_cons.1 ha with rfl | ha
    · exact ⟨_, List.mem_cons_self, hab⟩
    · obtain ⟨b, hb, hR⟩ := ih ha
      exact ⟨b, List.mem_cons_of_mem _ hb, hR⟩

theorem exists_left_of_mem {b : β} (h : List.Forall₂ R as bs) (hb : b ∈ bs) : ∃ a ∈ as, R a b :=
  exists_right_of_mem h.flip hb

theorem forall₂_comp {S : β → γ → Prop} {T : α → γ → Prop} {cs : List γ}
    (h : List.Forall₂ R as bs) (h' : List.Forall₂ S bs cs) (hT : ∀ a b c, R a b → S b c → T a c) : List.Forall₂ T as cs := by
  induction h generalizing cs with
  | nil =>
    cases h'
    exact .nil
  | cons hab _ ih =>
    cases h' with
    | cons hbc hrest => exact .cons (hT _ _ _ hab hbc) (ih hrest)

end Related

/-! ## Outlines -/

/-- The place of a view in its job. -/
structure Skeleton where
  xref : Xref
  parent : Option Xref
  features : List Feature

structure Outline where
  skeleton : Skeleton
  marks : List Mark
  tags : List String
  blocks : List Block
  bindings : List BindingShape

def View.skeleton (view : View) : Skeleton :=
  { xref := view.xref, parent := view.parent, features := view.features }

def View.outline (view : View) : Outline :=
  { skeleton := view.skeleton
    marks := view.marks
    tags := view.tags
    blocks := view.blocks
    bindings := view.bindings }

/-! ## Operations changed in place -/

/-- The operations look the same in an outline. -/
structure CreateOp.Alike (op op' : CreateOp) : Prop where
  features : op'.features = op.features
  marks : op'.marks = op.marks
  tags : op'.tags = op.tags
  blocks : op'.blocks = op.blocks
  sound : op.Sound → op'.Sound

structure UpdateOp.Alike (op op' : UpdateOp) : Prop where
  bindings : op'.bindings = op.bindings
  sound : op.Sound → op'.Sound

/-- The operation does not show in an outline. -/
structure CreateOp.Bare (op : CreateOp) : Prop where
  features : op.features = []
  marks : op.marks = []
  tags : op.tags = []
  blocks : op.blocks = []
  sound : op.Sound

theorem CreateOp.Alike.refl (op : CreateOp) : op.Alike op :=
  ⟨rfl, rfl, rfl, rfl, fun h => h⟩

theorem UpdateOp.Alike.refl (op : UpdateOp) : op.Alike op :=
  ⟨rfl, fun h => h⟩

theorem CreateOp.alike_of_lists_eq_nil {op op' : CreateOp} (hend : ListOp.isListEnd op' = false)
    (hlists : op'.lists = []) (hfeatures : op'.features = op.features)
    (hmarks : op'.marks = op.marks) (htags : op'.tags = op.tags)
    (hblocks : op'.blocks = op.blocks) : op.Alike op' :=
  ⟨hfeatures, hmarks, htags, hblocks, fun _ => ⟨hend, by simp [hlists]⟩⟩

theorem CreateOp.bare_of_lists_eq_nil {op : CreateOp} (hend : ListOp.isListEnd op = false)
    (hlists : op.lists = []) (hfeatures : op.features = []) (hmarks : op.marks = [])
    (htags : op.tags = []) (hblocks : op.blocks = []) : op.Bare :=
  ⟨hfeatures, hmarks, htags, hblocks, ⟨hend, by simp [hlists]⟩⟩

theorem flatMap_eq_nil_of_bare {α : Type} {f : CreateOp → List α} {ops : List CreateOp}
    (hops : ∀ op ∈ ops, op.Bare) (hf : ∀ op : CreateOp, op.Bare → f op = []) :
    ops.flatMap f = [] :=
  List.flatMap_eq_nil_iff.2 fun op hop => hf op (hops op hop)

theorem sound_of_alike {ops ops' : List CreateOp} (h : List.Forall₂ CreateOp.Alike ops ops')
    (hops : ∀ op ∈ ops, op.Sound) : ∀ op ∈ ops', op.Sound := by
  induction h with
  | nil => simp
  | cons halike _ ih =>
    intro op hop
    rcases List.mem_cons.1 hop with rfl | hop
    · exact halike.sound (hops _ List.mem_cons_self)
    · exact ih (fun op hop => hops op (List.mem_cons_of_mem _ hop)) op hop

section Rewritten

variable {view view' : View} {front ops back : List CreateOp}

/-- The create operations were changed in place, and bare ones were added around them. -/
structure View.Rewritten (view view' : View) (front ops back : List CreateOp) : Prop where
  xref : view'.xref = view.xref
  parent : view'.parent = view.parent
  lists : view'.create.Lists (front ++ ops ++ back)
  alike : List.Forall₂ CreateOp.Alike view.create.toList ops
  front : ∀ op ∈ front, op.Bare
  back : ∀ op ∈ back, op.Bare

theorem View.Rewritten.flatMap_eq {α : Type} {f : CreateOp → List α}
    (h : view.Rewritten view' front ops back) (hbare : ∀ op : CreateOp, op.Bare → f op = [])
    (halike : ∀ op op' : CreateOp, op.Alike op' → f op' = f op) :
    view'.create.toList.flatMap f = view.create.toList.flatMap f := by
  rw [h.lists.toList, List.flatMap_append, List.flatMap_append,
    flatMap_eq_nil_of_bare h.front hbare, flatMap_eq_nil_of_bare h.back hbare,
    flatMap_eq_of_forall₂ h.alike halike, List.nil_append, List.append_nil]

theorem View.Rewritten.outline_eq (h : view.Rewritten view' front ops back)
    (hbindings : view'.bindings = view.bindings) : view'.outline = view.outline := by
  have hfeatures : view'.features = view.features :=
    h.flatMap_eq (fun _ hbare => hbare.features) fun _ _ halike => halike.features
  have hmarks : view'.marks = view.marks :=
    h.flatMap_eq (fun _ hbare => hbare.marks) fun _ _ halike => halike.marks
  have htags : view'.tags = view.tags :=
    h.flatMap_eq (fun _ hbare => hbare.tags) fun _ _ halike => halike.tags
  have hblocks : view'.blocks = view.blocks :=
    h.flatMap_eq (fun _ hbare => hbare.blocks) fun _ _ halike => halike.blocks
  simp only [View.outline, View.skeleton, h.xref, h.parent, hfeatures, hmarks, htags, hblocks,
    hbindings]

theorem View.Rewritten.sound (h : view.Rewritten view' front ops back) (hview : view.Sound)
    (hupdate : SoundOps view'.update) : view'.Sound := by
  refine ⟨h.lists.linked, ?_, hupdate⟩
  intro op hop
  rw [h.lists.toList] at hop
  rcases List.mem_append.1 hop with hop | hop
  · rcases List.mem_append.1 hop with hop | hop
    · exact (h.front op hop).sound
    · exact sound_of_alike h.alike hview.createOps op hop
  · exact (h.back op hop).sound

end Rewritten

/-! ## What a pass does to a view -/

/-- The change of an outline: the place of the view stays, starts and ends stay balanced and ICU
expressions covered, there is no new element, and of the bindings remains what `narrow` leaves. -/
structure Outline.Reshapes (narrow : List BindingShape → List BindingShape) (o o' : Outline) :
    Prop where
  skeleton : o'.skeleton = o.skeleton
  balanced : balanced [] o.marks = true → balanced [] o'.marks = true
  covered : TemplateLowering.balanced [] o.marks = true → covered false o.marks = true →
    covered false o'.marks = true
  tags : ∀ tag ∈ o'.tags, tag ∈ o.tags
  bindings : o'.bindings = narrow o.bindings

/-- The change of a view while the next number goes from `n` to `n'`.  A new block is its own
root. -/
structure View.Turns (narrow : List BindingShape → List BindingShape) (n n' : Nat)
    (view view' : View) : Prop where
  grows : Grows n n' view.xrefs view'.xrefs
  reshapes : view.outline.Reshapes narrow view'.outline
  sound : view'.Sound
  kept : ∀ block ∈ view.blocks, block ∈ view'.blocks
  roots : ∀ block ∈ view'.blocks, block ∈ view.blocks ∨ block.root = block.xref

theorem Outline.reshapes_refl (o : Outline) : o.Reshapes id o :=
  ⟨rfl, fun h => h, fun _ h => h, fun _ h => h, rfl⟩

section Trans

variable {narrow narrow' : List BindingShape → List BindingShape} {n n' n'' : Nat}
  {view view' view'' : View}

theorem Outline.Reshapes.trans {o o' o'' : Outline} (h : o.Reshapes narrow o')
    (h' : o'.Reshapes narrow' o'') : o.Reshapes (narrow' ∘ narrow) o'' := by
  refine ⟨h'.skeleton.trans h.skeleton, fun hb => h'.balanced (h.balanced hb), ?_, ?_, ?_⟩
  · intro hbalanced hcovered
    exact h'.covered (h.balanced hbalanced) (h.covered hbalanced hcovered)
  · intro tag htag
    exact h.tags tag (h'.tags tag htag)
  · rw [h'.bindings, h.bindings, Function.comp_apply]

theorem View.Turns.trans (h : view.Turns narrow n n' view')
    (h' : view'.Turns narrow' n' n'' view'') :
    view.Turns (narrow' ∘ narrow) n n'' view'' := by
  refine ⟨h.grows.trans h'.grows, h.reshapes.trans h'.reshapes, h'.sound, ?_, ?_⟩
  · intro block hblock
    exact h'.kept block (h.kept block hblock)
  · intro block hblock
    rcases h'.roots block hblock with hold | hroot
    · exact h.roots block hold
    · exact .inr hroot

theorem View.turns_of_outline_eq (hgrows : Grows n n' view.xrefs view'.xrefs)
    (houtline : view'.outline = view.outline)
    (hsound : view'.Sound) : view.Turns id n n' view' := by
  have hblocks : view'.blocks = view.blocks := congrArg Outline.blocks houtline
  refine ⟨hgrows, houtline ▸ view.outline.reshapes_refl, hsound, ?_, ?_⟩
  · intro block hblock
    rwa [hblocks]
  · intro block hblock
    rw [hblocks] at hblock
    exact .inl hblock

/-- The change of a view that does not show in its outline. -/
structure View.Retains (n n' : Nat) (view view' : View) : Prop where
  grows : Grows n n' view.xrefs view'.xrefs
  outline : view'.outline = view.outline
  sound : view'.Sound

theorem View.Retains.turns (h : view.Retains n n' view') : view.Turns id n n' view' :=
  View.turns_of_outline_eq h.grows h.outline h.sound

theorem View.Retains.trans (h : view.Retains n n' view') (h' : view'.Retains n' n'' view'') :
    view.Retains n n'' view'' :=
  ⟨h.grows.trans h'.grows, h'.outline.trans h.outline, h'.sound⟩

end Trans

/-! ## What a pass does to a job -/

def Job.blocks (job : Job) : List Block :=
  job.units.flatMap View.blocks

/-- The root of every block is a block of the job that is its own root, with the same message. -/
def Job.Rooted (job : Job) : Prop :=
  ∀ block ∈ job.blocks, block.rootBlock ∈ job.blocks

structure Job.Turns (narrow : List BindingShape → List BindingShape) (job job' : Job) : Prop where
  kind : job'.kind = job.kind
  grows : Grows job.ids.nextXref job'.ids.nextXref job.xrefs job'.xrefs
  outlines : List.Forall₂ (fun view view' => view.outline.Reshapes narrow view'.outline)
    job.units job'.units
  sound : job'.Sound
  rooted : job'.Rooted

theorem Job.Turns.trans {narrow narrow' : List BindingShape → List BindingShape}
    {job job' job'' : Job} (h : job.Turns narrow job') (h' : job'.Turns narrow' job'') :
    job.Turns (narrow' ∘ narrow) job'' :=
  ⟨h'.kind.trans h.kind, h.grows.trans h'.grows,
    forall₂_comp h.outlines h'.outlines fun _ _ _ hview hview' => hview.trans hview', h'.sound,
    h'.rooted⟩

theorem Job.turns_of_threads {σ : Type} (next : σ → Nat) {s t : σ}
    {narrow : List BindingShape → List BindingShape} {job job' : Job}
    (h : Threads (fun s view view' t => View.Turns narrow (next s) (next t) view view') s job.units
      job'.units t) (hkind : job'.kind = job.kind) (hs : next s = job.ids.nextXref)
    (ht : next t = job'.ids.nextXref) (hrooted : job.Rooted) : job.Turns narrow job' := by
  have hturns : List.Forall₂ (fun view view' => ∃ n n', View.Turns narrow n n' view view')
      job.units job'.units := h.forall₂ fun _ _ _ _ _ hturns => ⟨_, _, hturns⟩
  have hkept : ∀ block ∈ job.blocks, block ∈ job'.blocks := by
    intro block hblock
    obtain ⟨view, hview, hblock⟩ := List.mem_flatMap.1 hblock
    obtain ⟨view', hview', n, n', hturns⟩ := exists_right_of_mem hturns hview
    exact List.mem_flatMap.2 ⟨view', hview', hturns.kept block hblock⟩
  refine ⟨hkind, ?_, hturns.imp fun _ _ ⟨_, _, hturns⟩ => hturns.reshapes, ?_, ?_⟩
  · rw [← hs, ← ht]
    exact h.grows fun _ _ _ _ _ hturns => hturns.grows
  · intro view' hview'
    obtain ⟨view, hview, n, n', hturns⟩ := exists_left_of_mem hturns hview'
    exact hturns.sound
  · intro block hblock
    obtain ⟨view', hview', hmem⟩ := List.mem_flatMap.1 hblock
    obtain ⟨view, hview, n, n', hturns⟩ := exists_left_of_mem hturns hview'
    rcases hturns.roots block hmem with hold | hroot
    · exact hkept _ (hrooted block (List.mem_flatMap.2 ⟨view, hview, hold⟩))
    · obtain ⟨xref, root, message⟩ := block
      obtain rfl : root = xref := hroot
      exact hblock

end TemplateLowering
