import TemplateLowering.Pass.NextContext
import TemplateLowering.Proofs.Op.Xrefs

/-!
# The shape of views

What the passes rely on in the operations of a view, apart from their order.  The features of the
create operations (which views they declare, which elements they stand for, which pipes their track
expressions hold) are never changed by a pass.  The marks are the starts and ends of elements,
containers, translated blocks and ICU expressions, which are properly nested, and the tags are those
of the elements.  The blocks are the translated blocks with their roots and messages, and the
bindings are those that have not been narrowed yet.
-/

namespace TemplateLowering

/-! ## Features -/

/-- What an operation adds to the structure of its view. -/
inductive Feature
  | element (xref : Xref)
  | view (xref : Xref)
  | track (pipes : List Xref)
deriving DecidableEq

def CreateOp.features : CreateOp → List Feature
  | .elementStart op => [.element op.xref]
  | .containerStart op => [.element op.xref]
  | .template op => [.element op.xref, .view op.xref]
  | .conditionalCreate op => [.element op.xref, .view op.xref]
  | .conditionalBranchCreate op => [.element op.xref, .view op.xref]
  | .repeaterCreate op =>
      .element op.xref :: .view op.xref :: op.emptyView.toList.map .view ++
        [.track op.track.pipes]
  | .projection op => op.fallbackView.toList.map .view
  | _ => []

def View.features (view : View) : List Feature :=
  view.create.toList.flatMap CreateOp.features

def Feature.view? : Feature → Option Xref
  | .view xref => some xref
  | _ => none

def CreateOp.declaredViews : CreateOp → List Xref
  | .template op => [op.xref]
  | .conditionalCreate op => [op.xref]
  | .conditionalBranchCreate op => [op.xref]
  | .repeaterCreate op => op.xref :: op.emptyView.toList
  | .projection op => op.fallbackView.toList
  | _ => []

def View.declaredViews (view : View) : List Xref :=
  view.create.toList.flatMap CreateOp.declaredViews

theorem CreateOp.declaredViews_eq (op : CreateOp) :
    op.declaredViews = op.features.filterMap Feature.view? := by
  have hoption : ∀ xref : Option Xref,
      (xref.toList.map Feature.view).filterMap Feature.view? = xref.toList := by
    intro xref
    cases xref <;> rfl
  cases op with
  | repeaterCreate op =>
    rw [declaredViews, features, List.filterMap_append, List.filterMap_cons, List.filterMap_cons,
      hoption]
    simp [Feature.view?]
  | projection op => exact (hoption op.fallbackView).symm
  | _ => rfl

theorem View.declaredViews_eq (view : View) :
    view.declaredViews = view.features.filterMap Feature.view? := by
  rw [declaredViews, features, List.filterMap_flatMap]
  exact List.flatMap_congr fun op _ => op.declaredViews_eq

/-! ## Marks -/

inductive BracketKind
  | element
  | container
  | block
  | icu
deriving DecidableEq

/-- What is started by one operation and ended by another, with its number. -/
structure Bracket where
  kind : BracketKind
  xref : Xref
deriving DecidableEq

inductive Mark
  | start (bracket : Bracket)
  | stop (bracket : Bracket)
deriving DecidableEq

def CreateOp.marks : CreateOp → List Mark
  | .elementStart op => [.start ⟨.element, op.xref⟩]
  | .elementEnd op => [.stop ⟨.element, op.xref⟩]
  | .containerStart op => [.start ⟨.container, op.xref⟩]
  | .containerEnd op => [.stop ⟨.container, op.xref⟩]
  | .i18nStart op => [.start ⟨.block, op.xref⟩]
  | .i18nEnd op => [.stop ⟨.block, op.xref⟩]
  | .icuStart op => [.start ⟨.icu, op.xref⟩]
  | .icuEnd xref => [.stop ⟨.icu, xref⟩]
  | _ => []

def View.marks (view : View) : List Mark :=
  view.create.toList.flatMap CreateOp.marks

def CreateOp.tags : CreateOp → List String
  | .elementStart op => [op.tag]
  | _ => []

def View.tags (view : View) : List String :=
  view.create.toList.flatMap CreateOp.tags

/-- Starts and ends that are properly nested, with nothing inside an ICU expression. -/
inductive Nested : List Mark → Prop
  | nil : Nested []
  | icu {xref : Xref} {rest : List Mark} :
      Nested rest → Nested (.start ⟨.icu, xref⟩ :: .stop ⟨.icu, xref⟩ :: rest)
  | wrap {bracket : Bracket} {inner rest : List Mark} : bracket.kind ≠ .icu →
      Nested inner → Nested rest → Nested (.start bracket :: (inner ++ .stop bracket :: rest))

namespace Nested

theorem append {marks rest : List Mark} (h : Nested marks) (hrest : Nested rest) :
    Nested (marks ++ rest) := by
  induction h with
  | nil => exact hrest
  | icu _ ih => exact ih.icu
  | wrap hkind hinner _ _ ih => simpa using Nested.wrap hkind hinner ih

theorem enclose {marks : List Mark} (h : Nested marks) (bracket : Bracket)
    (hkind : bracket.kind ≠ .icu) : Nested (.start bracket :: (marks ++ [.stop bracket])) :=
  h.wrap hkind .nil

end Nested

/-- Nothing may start inside an ICU expression. -/
def admitsStart (opened : List Bracket) : Bool :=
  opened.head?.all fun bracket => bracket.kind ≠ .icu

/-- Whether every end closes what was started last, of the same kind and with the same number, and
everything is closed in the end; `opened` holds what is open, innermost first. -/
def balanced : List Bracket → List Mark → Bool
  | opened, [] => opened.isEmpty
  | opened, .start bracket :: marks => admitsStart opened && balanced (bracket :: opened) marks
  | [], .stop _ :: _ => false
  | innermost :: opened, .stop bracket :: marks =>
      decide (innermost = bracket) && balanced opened marks

theorem Nested.balanced_append {marks : List Mark} (h : Nested marks) {opened : List Bracket}
    (hopened : admitsStart opened = true) (rest : List Mark) :
    balanced opened (marks ++ rest) = balanced opened rest := by
  induction h generalizing opened rest with
  | nil => rfl
  | icu _ ih => simp [balanced, hopened, ih hopened]
  | @wrap bracket _ _ hkind _ _ ihinner ihrest =>
    have hadmits : admitsStart (bracket :: opened) = true := by simpa [admitsStart] using hkind
    simp [balanced, hopened, ihinner hadmits, ihrest hopened]

theorem Nested.balanced {marks : List Mark} (h : Nested marks) :
    TemplateLowering.balanced [] marks = true := by
  have hadmits : admitsStart [] = true := rfl
  have happend := h.balanced_append hadmits []
  rw [List.append_nil] at happend
  rw [happend]
  rfl

/-- Whether every ICU expression stands in a translated block; `inBlock` says whether one is open.
The end of a block closes all blocks around it. -/
def covered : Bool → List Mark → Bool
  | _, [] => true
  | inBlock, .start bracket :: marks =>
      match bracket.kind with
      | .block => covered true marks
      | .icu => inBlock && covered inBlock marks
      | _ => covered inBlock marks
  | inBlock, .stop bracket :: marks =>
      match bracket.kind with
      | .block => covered false marks
      | _ => covered inBlock marks

theorem covered_append_congr {rest rest' : List Mark}
    (h : ∀ inBlock, covered inBlock rest = covered inBlock rest') (marks : List Mark)
    (inBlock : Bool) : covered inBlock (marks ++ rest) = covered inBlock (marks ++ rest') := by
  induction marks generalizing inBlock with
  | nil => exact h inBlock
  | cons mark marks ih =>
    obtain ⟨kind, xref⟩ | ⟨kind, xref⟩ := mark <;> cases kind <;> simp [covered, ih]

/-! ## Translated blocks -/

/-- A translated block, its root and its message. -/
structure Block where
  xref : Xref
  root : Xref
  message : I18n.Message

/-- The block that the root of a block is, when it has the same message. -/
def Block.rootBlock (block : Block) : Block :=
  { xref := block.root, root := block.root, message := block.message }

def CreateOp.blocks : CreateOp → List Block
  | .i18nStart op => [⟨op.xref, op.root, op.message⟩]
  | _ => []

def View.blocks (view : View) : List Block :=
  view.create.toList.flatMap CreateOp.blocks

/-! ## Bindings -/

/-- What the narrowing of a binding depends on. -/
structure BindingShape where
  target : Xref
  kind : BindingKind
  name : String
  isInterpolation : Bool
deriving DecidableEq

def BindingValue.isInterpolation : BindingValue → Bool
  | .expression _ => false
  | .interpolation _ => true

def Binding.shape (op : Binding) : BindingShape :=
  { target := op.target
    kind := op.kind
    name := op.name
    isInterpolation := op.value.isInterpolation }

def UpdateOp.bindings : UpdateOp → List BindingShape
  | .binding op => [op.shape]
  | _ => []

def View.bindings (view : View) : List BindingShape :=
  view.update.toList.flatMap UpdateOp.bindings

/-! ## Sound operations -/

/-- The operation is not the end of a list, is no bare step to another context, and is no binding of
a translation. -/
structure UpdateOp.Sound (op : UpdateOp) : Prop where
  notEnd : ListOp.isListEnd op = false
  noBareSteps : op.bareSteps? = none
  kind : ∀ shape ∈ op.bindings, shape.kind ≠ .i18n

structure SoundOps (ops : OpList UpdateOp) : Prop where
  linked : ops.Linked
  sound : ∀ op ∈ ops.toList, op.Sound

structure CreateOp.Sound (op : CreateOp) : Prop where
  notEnd : ListOp.isListEnd op = false
  lists : ∀ ops ∈ op.lists, SoundOps ops

theorem CreateOp.Sound.handler {op : Listener} (h : (CreateOp.listener op).Sound) :
    SoundOps op.handler :=
  h.lists _ (by simp [CreateOp.lists])

structure View.Sound (view : View) : Prop where
  create : view.create.Linked
  createOps : ∀ op ∈ view.create.toList, op.Sound
  update : SoundOps view.update

namespace Job

def Sound (job : Job) : Prop :=
  ∀ view ∈ job.units, view.Sound

def Balanced (job : Job) : Prop :=
  ∀ view ∈ job.units, balanced [] view.marks = true

def Covered (job : Job) : Prop :=
  ∀ view ∈ job.units, covered false view.marks = true

end Job

end TemplateLowering
