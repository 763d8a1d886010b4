import TemplateLowering.Lowering.Binding
import TemplateLowering.Proofs.Op.Shape

/-!
# Fragments

What is known of a fragment that was lowered into a view: its numbers were drawn from the supply and
each of them once; the views in it are the ones that its operations declare, in the order of their
numbers, each below its parent; and its operations are sound and properly nested.  A fragment that
adds plain operations only is `Plain`.
-/

namespace TemplateLowering

/-! ## Lowered operations -/

/-- A sound operation whose translated block, if it starts one, is a root. -/
structure CreateOp.Lowered (op : CreateOp) : Prop where
  sound : op.Sound
  roots : ∀ block ∈ op.blocks, block.root = block.xref

theorem CreateOp.lowered_of_lists_eq_nil {op : CreateOp} (hend : ListOp.isListEnd op = false)
    (hlists : op.lists = []) (hblocks : op.blocks = []) : op.Lowered :=
  ⟨⟨hend, by simp [hlists]⟩, by simp [hblocks]⟩

structure View.Lowered (view : View) : Prop where
  sound : view.Sound
  roots : ∀ block ∈ view.blocks, block.root = block.xref
  nested : Nested view.marks

namespace Fragment

variable {f g : Fragment} {view : Xref}

@[simp] theorem create_append : (f ++ g).create = f.create ++ g.create := rfl

@[simp] theorem update_append : (f ++ g).update = f.update ++ g.update := rfl

@[simp] theorem views_append : (f ++ g).views = f.views ++ g.views := rfl

theorem append_assoc (f g h : Fragment) : f ++ g ++ h = f ++ (g ++ h) := by
  change Fragment.mk _ _ _ = Fragment.mk _ _ _
  simp

/-! ## Numbers and views of a fragment -/

def xrefs (f : Fragment) : List Xref :=
  f.create.flatMap CreateOp.xrefs ++ f.update.flatMap UpdateOp.xrefs ++ f.views.flatMap View.xrefs

def declarations (view : Xref) (f : Fragment) : List (Option Xref × Xref) :=
  (f.create.flatMap CreateOp.declaredViews).map (some view, ·) ++
    f.views.flatMap fun inner => inner.declaredViews.map (some inner.xref, ·)

def parentage (f : Fragment) : List (Option Xref × Xref) :=
  f.views.map fun inner => (inner.parent, inner.xref)

def marks (f : Fragment) : List Mark :=
  f.create.flatMap CreateOp.marks

@[simp] theorem count_xrefs_append (x : Xref) :
    (f ++ g).xrefs.count x = f.xrefs.count x + g.xrefs.count x := by
  simp only [xrefs, create_append, update_append, views_append, List.flatMap_append,
    List.count_append]
  omega

@[simp] theorem count_declarations_append (edge : Option Xref × Xref) :
    ((f ++ g).declarations view).count edge =
      (f.declarations view).count edge + (g.declarations view).count edge := by
  simp only [declarations, create_append, views_append, List.flatMap_append, List.map_append,
    List.count_append]
  omega

@[simp] theorem count_parentage_append (edge : Option Xref × Xref) :
    (f ++ g).parentage.count edge = f.parentage.count edge + g.parentage.count edge := by
  simp [parentage]

@[simp] theorem marks_append : (f ++ g).marks = f.marks ++ g.marks := by
  simp [marks]

/-! A fragment of operations alone. -/

section Ops

variable (create : List CreateOp) (update : List UpdateOp)

@[simp] theorem xrefs_ops : (Fragment.mk create update []).xrefs =
    create.flatMap CreateOp.xrefs ++ update.flatMap UpdateOp.xrefs := by
  simp [xrefs]

@[simp] theorem declarations_ops : (Fragment.mk create update []).declarations view =
    (create.flatMap CreateOp.declaredViews).map (some view, ·) := by
  simp [declarations]

@[simp] theorem parentage_ops : (Fragment.mk create update []).parentage = [] := rfl

@[simp] theorem marks_ops :
    (Fragment.mk create update []).marks = create.flatMap CreateOp.marks := rfl

end Ops

/-! ## Soundness -/

structure Sound (f : Fragment) : Prop where
  create : ∀ op ∈ f.create, op.Lowered
  update : ∀ op ∈ f.update, op.Sound
  views : ∀ inner ∈ f.views, inner.Lowered
  parents : ∀ inner ∈ f.views, ∀ parent, inner.parent = some parent →
    parent.index < inner.xref.index

theorem Sound.append (hf : f.Sound) (hg : g.Sound) : (f ++ g).Sound := by
  constructor <;> simp only [create_append, update_append, views_append, List.mem_append] <;>
    intro a ha <;> rcases ha with ha | ha
  · exact hf.create a ha
  · exact hg.create a ha
  · exact hf.update a ha
  · exact hg.update a ha
  · exact hf.views a ha
  · exact hg.views a ha
  · exact hf.parents a ha
  · exact hg.parents a ha

theorem Sound.left (h : (f ++ g).Sound) : f.Sound :=
  ⟨fun op hop => h.create op (List.mem_append_left _ hop),
    fun op hop => h.update op (List.mem_append_left _ hop),
    fun inner hinner => h.views inner (List.mem_append_left _ hinner),
    fun inner hinner => h.parents inner (List.mem_append_left _ hinner)⟩

theorem Sound.right (h : (f ++ g).Sound) : g.Sound :=
  ⟨fun op hop => h.create op (List.mem_append_right _ hop),
    fun op hop => h.update op (List.mem_append_right _ hop),
    fun inner hinner => h.views inner (List.mem_append_right _ hinner),
    fun inner hinner => h.parents inner (List.mem_append_right _ hinner)⟩

theorem sound_ops {create : List CreateOp} {update : List UpdateOp}
    (hcreate : ∀ op ∈ create, op.Lowered) (hupdate : ∀ op ∈ update, op.Sound) :
    (Fragment.mk create update []).Sound :=
  ⟨hcreate, hupdate, by simp, by simp⟩

/-- The views are in the order of their numbers, which lie between `lo` and `hi`. -/
structure Ordered (lo hi : Nat) (f : Fragment) : Prop where
  range : ∀ inner ∈ f.views, lo ≤ inner.xref.index ∧ inner.xref.index < hi
  sorted : f.views.Pairwise fun a b => a.xref.index < b.xref.index

theorem Ordered.append {lo mid hi : Nat} (hf : f.Ordered lo mid) (hg : g.Ordered mid hi)
    (hlo : lo ≤ mid) (hhi : mid ≤ hi) : (f ++ g).Ordered lo hi := by
  constructor
  · intro inner hinner
    rcases List.mem_append.1 hinner with hmem | hmem
    · have hrange := hf.range inner hmem
      omega
    · have hrange := hg.range inner hmem
      omega
  · refine List.pairwise_append.2 ⟨hf.sorted, hg.sorted, ?_⟩
    intro a ha b hb
    have hrange := hf.range a ha
    have hrange' := hg.range b hb
    omega

theorem Ordered.mono {lo lo' hi hi' : Nat} (h : f.Ordered lo hi) (hlo : lo' ≤ lo)
    (hhi : hi ≤ hi') : f.Ordered lo' hi' := by
  refine ⟨fun inner hinner => ?_, h.sorted⟩
  have hrange := h.range inner hinner
  omega

theorem Ordered.of_views_eq {lo hi : Nat} (h : g.Ordered lo hi) (hviews : f.views = g.views) :
    f.Ordered lo hi := by
  constructor <;> rw [hviews]
  · exact h.range
  · exact h.sorted

theorem ordered_of_views_eq_nil (h : f.views = []) (lo hi : Nat) : f.Ordered lo hi := by
  constructor <;> simp [h]

/-! ## Lowered fragments -/

/-- The views of the fragment, numbered from `lo` on and below `hi`, are those that are declared in
it when it stands in `view`, and those of `pending`, which `view` still has to declare.  Its
operations are sound and nested. -/
structure Awaits (view : Xref) (lo hi : Nat) (pending : List Xref) (f : Fragment) : Prop where
  edges : ∀ edge, (f.declarations view).count edge + (pending.map (some view, ·)).count edge =
    f.parentage.count edge
  ordered : f.Ordered lo hi
  sound : f.Sound
  nested : Nested f.marks

abbrev Fits (view : Xref) (lo hi : Nat) (f : Fragment) : Prop :=
  f.Awaits view lo hi []

namespace Awaits

variable {lo mid hi : Nat} {pending pending' : List Xref}

theorem append (hf : f.Awaits view lo mid pending) (hg : g.Awaits view mid hi pending')
    (hlo : lo ≤ mid) (hhi : mid ≤ hi) : (f ++ g).Awaits view lo hi (pending ++ pending') := by
  constructor
  · intro edge
    have hedge := hf.edges edge
    have hedge' := hg.edges edge
    simp only [count_declarations_append, count_parentage_append, List.map_append,
      List.count_append]
    omega
  · exact hf.ordered.append hg.ordered hlo hhi
  · exact hf.sound.append hg.sound
  · rw [marks_append]
    exact hf.nested.append hg.nested

theorem mono {lo' hi' : Nat} (h : f.Awaits view lo hi pending) (hlo : lo' ≤ lo)
    (hhi : hi ≤ hi') : f.Awaits view lo' hi' pending :=
  ⟨h.edges, h.ordered.mono hlo hhi, h.sound, h.nested⟩

section Declare

variable {op : CreateOp} {update : List UpdateOp}

theorem declared_before (h : f.Awaits view lo hi pending) (hop : op.Lowered)
    (hviews : op.declaredViews = pending) (hmarks : op.marks = []) :
    (Fragment.mk [op] [] [] ++ f).Fits view lo hi := by
  constructor
  · intro edge
    have hedge := h.edges edge
    simp [hviews]
    omega
  · exact h.ordered.of_views_eq (by simp)
  · exact .append (sound_ops (by simpa using hop) (by simp)) h.sound
  · simpa [hmarks] using h.nested

theorem declared_after (h : f.Awaits view lo hi pending) (hop : op.Lowered)
    (hviews : op.declaredViews = pending) (hmarks : op.marks = [])
    (hupdate : ∀ op ∈ update, op.Sound) : (f ++ Fragment.mk [op] update []).Fits view lo hi := by
  constructor
  · intro edge
    have hedge := h.edges edge
    simp [hviews]
    omega
  · exact h.ordered.of_views_eq (by simp)
  · exact .append h.sound (sound_ops (by simpa using hop) hupdate)
  · simpa [hmarks] using h.nested

end Declare

end Awaits

/-- The fragment was lowered into `view` while the supply went from `s` to `t`. -/
structure Lowered (view : Xref) (s t : Ids) (f : Fragment) : Prop where
  grows : Grows s.nextXref t.nextXref [] f.xrefs
  fits : f.Fits view s.nextXref t.nextXref

variable {s t u : Ids}

theorem Lowered.append (hf : f.Lowered view s t) (hg : g.Lowered view t u) :
    (f ++ g).Lowered view s u := by
  constructor
  · refine (hf.grows.append hg.grows).subperm (fun _ => Nat.le_refl _) ?_
    intro x
    simp
  · exact hf.fits.append hg.fits hf.grows.le hg.grows.le

/-- Operations that neither declare a view nor start or end anything. -/
structure Plain (s t : Ids) (f : Fragment) : Prop where
  grows : Grows s.nextXref t.nextXref [] f.xrefs
  create : ∀ op ∈ f.create, op.Lowered ∧ op.features = [] ∧ op.marks = []
  update : ∀ op ∈ f.update, op.Sound
  views : f.views = []

theorem Plain.append (hf : f.Plain s t) (hg : g.Plain t u) : (f ++ g).Plain s u := by
  constructor
  · refine (hf.grows.append hg.grows).subperm (fun _ => Nat.le_refl _) ?_
    intro x
    simp
  · intro op hop
    rcases List.mem_append.1 hop with hop | hop
    · exact hf.create op hop
    · exact hg.create op hop
  · intro op hop
    rcases List.mem_append.1 hop with hop | hop
    · exact hf.update op hop
    · exact hg.update op hop
  · simp [hf.views, hg.views]

theorem plain_empty (s : Ids) : ({} : Fragment).Plain s s := by
  constructor <;> simp [xrefs, Grows.refl]

theorem Plain.marks_eq (h : f.Plain s t) : f.marks = [] := by
  rw [marks, List.flatMap_eq_nil_iff]
  exact fun op hop => (h.create op hop).2.2

theorem Plain.declarations_eq (h : f.Plain s t) (view : Xref) : f.declarations view = [] := by
  have hviews : f.create.flatMap CreateOp.declaredViews = [] := by
    rw [List.flatMap_eq_nil_iff]
    intro op hop
    rw [CreateOp.declaredViews_eq, (h.create op hop).2.1, List.filterMap_nil]
  simp [declarations, hviews, h.views]

theorem Plain.parentage_eq (h : f.Plain s t) : f.parentage = [] := by
  simp [parentage, h.views]

theorem Plain.sound (h : f.Plain s t) : f.Sound := by
  refine ⟨fun op hop => (h.create op hop).1, h.update, ?_, ?_⟩ <;> simp [h.views]

theorem Plain.fits (h : f.Plain s t) (view : Xref) (lo hi : Nat) : f.Fits view lo hi := by
  refine ⟨?_, ordered_of_views_eq_nil h.views _ _, h.sound, ?_⟩
  · intro edge
    simp [h.declarations_eq, h.parentage_eq]
  · rw [h.marks_eq]
    exact .nil

theorem Plain.lowered (h : f.Plain s t) (view : Xref) : f.Lowered view s t :=
  ⟨h.grows, h.fits view _ _⟩

theorem Awaits.weave {lo hi : Nat} {pending : List Xref} {plain : Fragment}
    (h : (f ++ g).Awaits view lo hi pending) (hplain : plain.Plain s t) :
    (f ++ plain ++ g).Awaits view lo hi pending := by
  refine ⟨?_, h.ordered.of_views_eq (by simp [hplain.views]), ?_, ?_⟩
  · intro edge
    have hedge := h.edges edge
    simpa [hplain.declarations_eq, hplain.parentage_eq] using hedge
  · exact (h.sound.left.append hplain.sound).append h.sound.right
  · simpa [hplain.marks_eq] using h.nested

end Fragment

end TemplateLowering
