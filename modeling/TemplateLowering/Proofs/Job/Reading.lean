import TemplateLowering.Job.Basic
import TemplateLowering.Proofs.Template.Sketch

/-!
# Reading a job

The sketch of a template can be read back from the create operations of its job.  Elements and ICU
expressions are found by their start and end, an operation that declares a view stands for what is
read in that view, and a text is a bound one when an update operation of its view interpolates it.
The reading is strict: an end without its start, a part of a deferred block that the block does not
name, or an operation that no template leads to, and there is no sketch.
-/

namespace TemplateLowering

/-- What has been started and not ended, with what was read before it. -/
inductive Opened
  | element (xref : Xref) (name : String) (before : List Sketch)
  | icu (xref : Xref) (before : List Sketch)

/-- How far the operations of a view have been read.  Both `opened` and `items` have the latest
first; `parts` are views of a deferred block that is still to come. -/
structure Reading where
  opened : List Opened := []
  items : List Sketch := []
  parts : List (Xref × List Sketch) := []

/-- What the reading of a view depends on: the sketches of other views, and the texts that are
interpolated. -/
structure Surroundings where
  sketchOf : Xref → Option (List Sketch)
  interpolated : List Xref

/-- Operations that leave no trace in a sketch. -/
def CreateOp.isSilent : CreateOp → Bool
  | .listener _ | .extractedAttribute _ | .deferOn _ | .i18nStart _ | .i18nEnd _ | .i18nContext _
  | .i18nAttributes _ | .variableDecl _ | .statement _ => true
  | _ => false

/-- The part that stands first, when the block names it. -/
def takePart : Option Xref → List (Xref × List Sketch) →
    Option (Option (List Sketch) × List (Xref × List Sketch))
  | none, parts => some (none, parts)
  | some xref, (known, children) :: parts =>
      if known = xref then some (some children, parts) else none
  | some _, [] => none

/-- A deferred block takes its parts, all of them and in order. -/
def DeferOp.sketch? (op : DeferOp) (parts : List (Xref × List Sketch)) : Option Sketch := do
  let (main, parts) ← takePart (some op.mainView) parts
  let (loading, parts) ← takePart op.loadingView parts
  let (placeholder, parts) ← takePart op.placeholderView parts
  let (error, parts) ← takePart op.errorView parts
  match main, parts with
  | some children, [] => some (.deferred children loading placeholder error)
  | _, _ => none

namespace Reading

def add (reading : Reading) (item : Sketch) : Reading :=
  { reading with items := item :: reading.items }

/-- Reads an operation that does not belong to a deferred block. -/
def readPlain (env : Surroundings) (reading : Reading) : CreateOp → Option Reading
  | .elementStart op =>
      some
        { reading with
          opened := .element op.xref op.tag reading.items :: reading.opened
          items := [] }
  | .elementEnd op =>
      match reading.opened with
      | .element xref name before :: opened =>
          if xref = op.xref then
            some { reading with opened, items := .element name reading.items.reverse :: before }
          else none
      | _ => none
  | .icuStart op =>
      some
        { reading with
          opened := .icu op.xref reading.items :: reading.opened
          items := [] }
  | .icuEnd stop =>
      match reading.opened with
      | .icu xref before :: opened =>
          if xref = stop then
            some { reading with opened, items := .icu reading.items.reverse :: before }
          else none
      | _ => none
  | .text op =>
      some (reading.add (if op.xref ∈ env.interpolated then .boundText else .text op.value))
  | .declareLet op => some (reading.add (.letDeclaration op.name))
  | .template op => (env.sketchOf op.xref).map fun children => reading.add (.template children)
  | .projection op => do
      let fallback ← op.fallbackView.mapM env.sketchOf
      return reading.add (.content op.selector fallback)
  | .conditionalCreate op =>
      (env.sketchOf op.xref).map fun children => reading.add (.branches [children])
  | .conditionalBranchCreate op => do
      let children ← env.sketchOf op.xref
      match reading.items with
      | .branches known :: items =>
          some { reading with items := .branches (known ++ [children]) :: items }
      | _ => none
  | .repeaterCreate op => do
      let children ← env.sketchOf op.xref
      let empty ← op.emptyView.mapM env.sketchOf
      return reading.add (.loop children empty)
  | op => if op.isSilent then some reading else none

/-- Whether an operation declares the view of a part of a deferred block. -/
def part? : CreateOp → Option Xref
  | .template op => if op.kind = .block then some op.xref else none
  | _ => none

/-- Reads an operation.  Between the parts of a deferred block and the block itself there is no
other operation. -/
def read (env : Surroundings) (reading : Reading) (op : CreateOp) : Option Reading :=
  match part? op, op with
  | some xref, _ =>
      (env.sketchOf xref).map fun children =>
        { reading with parts := reading.parts ++ [(xref, children)] }
  | none, .defer op =>
      (op.sketch? reading.parts).map fun sketch => { reading with parts := [] }.add sketch
  | none, op => if reading.parts.isEmpty then reading.readPlain env op else none

/-- What has been read, when nothing is missing. -/
def result? : Reading → Option (List Sketch)
  | { opened := [], items, parts := [] } => some items.reverse
  | _ => none

end Reading

/-- The sketch that the create operations of a view stand for. -/
def readOps (env : Surroundings) (ops : List CreateOp) : Option (List Sketch) := do
  let reading ← ops.foldlM (Reading.read env) {}
  reading.result?

def CreateOp.text? : CreateOp → Option Xref
  | .text op => some op.xref
  | _ => none

def UpdateOp.interpolated? : UpdateOp → Option Xref
  | .interpolateText op => some op.target
  | _ => none

/-- The sketch of a view, which is found by its number; its views nest at most `depth` deep. -/
def sketchOfView (view? : Xref → Option View) : Nat → Xref → Option (List Sketch)
  | 0, _ => none
  | depth + 1, xref => do
      let view ← view? xref
      readOps
        { sketchOf := sketchOfView view? depth
          interpolated := view.update.toList.filterMap UpdateOp.interpolated? }
        view.create.toList

/-- The sketch that is read in the root view of a job. -/
def Job.sketch? (job : Job) : Option (List Sketch) :=
  sketchOfView job.unit? job.units.length job.root.xref

end TemplateLowering
