import TemplateLowering.Tag
import TemplateLowering.Template.Node
import TemplateLowering.Text.Blank

/-!
# Sketches

The sketch of a template is what it shows and in which order, without bindings, expressions and
translations.  Comments leave no trace in it, nor does a control flow block without branches, nor
padding that stands for the fallback of projected content.
-/

namespace TemplateLowering

inductive Sketch
  | element (name : String) (children : List Sketch)
  | text (value : String)
  | boundText
  | template (children : List Sketch)
  | content (selector : String) (fallback : Option (List Sketch))
  | branches (children : List (List Sketch))
  | loop (children : List Sketch) (empty : Option (List Sketch))
  | deferred (children : List Sketch) (loading placeholder error : Option (List Sketch))
  | icu (texts : List Sketch)
  | letDeclaration (name : String)

namespace Template

/-- A node that shows nothing but white space. -/
def Node.isPadding : Node → Bool
  | .comment _ => true
  | .text literal => Text.isAllBlank literal.value
  | _ => false

def IcuPlaceholder.sketch : IcuPlaceholder → Sketch
  | .text literal => .text literal.value
  | .boundText _ => .boundText

/-- The texts of an ICU expression: those of its variables, then those of its placeholders. -/
def Icu.texts (icu : Icu) : List Sketch :=
  icu.vars.entries.map (fun _ => .boundText) ++
    icu.placeholders.entries.map fun entry => entry.2.sketch

mutual

def Node.sketch : Node → List Sketch
  | .comment _ => []
  | .text literal => [.text literal.value]
  | .boundText _ => [.boundText]
  | .element element => [element.sketch]
  | .template template => [template.sketch]
  | .content content => [content.sketch]
  | .ifBlock branches _ =>
      if branches.isEmpty then [] else [.branches (sketchBranches branches)]
  | .switchBlock _ switchCases _ =>
      if switchCases.isEmpty then [] else [.branches (sketchCases switchCases)]
  | .forBlock block => [block.sketch]
  | .deferBlock block => [block.sketch]
  | .icu icu => [.icu icu.texts]
  | .letDeclaration declaration => [.letDeclaration declaration.name]
  | .unknownBlock .. => []

def sketchNodes : List Node → List Sketch
  | [] => []
  | node :: nodes => node.sketch ++ sketchNodes nodes

def Element.sketch : Element → Sketch
  | { name, children, .. } => .element (TagName.splitLenient name).name (sketchNodes children)

def EmbeddedTemplate.sketch : EmbeddedTemplate → Sketch
  | { children, .. } => .template (sketchNodes children)

def Content.sketch : Content → Sketch
  | { selector, children, .. } =>
      .content selector
        (if children.all Node.isPadding then none else some (sketchNodes children))

def sketchBranches : List IfBranch → List (List Sketch)
  | [] => []
  | { children, .. } :: branches => sketchNodes children :: sketchBranches branches

def sketchCases : List SwitchCase → List (List Sketch)
  | [] => []
  | { children, .. } :: switchCases => sketchNodes children :: sketchCases switchCases

def ForBlock.sketch : ForBlock → Sketch
  | { children, empty, .. } => .loop (sketchNodes children) (sketchEmpty empty)

def sketchEmpty : Option ForEmpty → Option (List Sketch)
  | none => none
  | some { children, .. } => some (sketchNodes children)

def DeferBlock.sketch : DeferBlock → Sketch
  | { children, loading, placeholder, error, .. } =>
      .deferred (sketchNodes children) (sketchLoading loading) (sketchPlaceholder placeholder)
        (sketchError error)

def sketchLoading : Option DeferLoading → Option (List Sketch)
  | none => none
  | some { children, .. } => some (sketchNodes children)

def sketchPlaceholder : Option DeferPlaceholder → Option (List Sketch)
  | none => none
  | some { children, .. } => some (sketchNodes children)

def sketchError : Option DeferError → Option (List Sketch)
  | none => none
  | some { children, .. } => some (sketchNodes children)

end

theorem sketchBranches_eq (branches : List IfBranch) :
    sketchBranches branches = (branches.map IfBranch.children).map sketchNodes := by
  induction branches with
  | nil => rfl
  | cons branch branches ih =>
    cases branch
    simp [sketchBranches, ih]

theorem sketchCases_eq (switchCases : List SwitchCase) :
    sketchCases switchCases = (switchCases.map SwitchCase.children).map sketchNodes := by
  induction switchCases with
  | nil => rfl
  | cons branch switchCases ih =>
    cases branch
    simp [sketchCases, ih]

theorem Element.sketch_eq (element : Element) :
    element.sketch =
      .element (TagName.splitLenient element.name).name (sketchNodes element.children) := by
  cases element
  rfl

theorem EmbeddedTemplate.sketch_eq (template : EmbeddedTemplate) :
    template.sketch = .template (sketchNodes template.children) := by
  cases template
  rfl

theorem Content.sketch_eq (content : Content) :
    content.sketch = .content content.selector (if content.children.all Node.isPadding then none
      else some (sketchNodes content.children)) := by
  cases content
  rfl

theorem ForBlock.sketch_eq (block : ForBlock) :
    block.sketch = .loop (sketchNodes block.children)
      ((block.empty.map ForEmpty.children).map sketchNodes) := by
  obtain ⟨_, _, _, _, _, _ | ⟨_, _⟩, _⟩ := block <;> rfl

theorem DeferBlock.sketch_eq (block : DeferBlock) :
    block.sketch = .deferred (sketchNodes block.children)
      ((block.loading.map DeferLoading.children).map sketchNodes)
      ((block.placeholder.map DeferPlaceholder.children).map sketchNodes)
      ((block.error.map DeferError.children).map sketchNodes) := by
  obtain ⟨_, _, _, _, _ | ⟨_, _⟩, _ | ⟨_, _⟩, _ | ⟨_, _⟩, _⟩ := block <;> rfl

end Template

/-- A template with every kind of node that declares a view, and a message that reaches into one. -/
def gallery : List Template.Node :=
  let here : SourceSpan := default
  let block : Template.BlockSpans := { whole := here, start := here, stop := none }
  let text (value : String) : Template.Node := .text { value, span := here }
  let title : Template.BoundText :=
    { value :=
        { ast :=
            .interpolation {} ["", ""]
              [.pipe {} {} (.propertyRead {} {} (.implicitReceiver {}) "title") "upper" []
                .byName] }
      span := here
      i18n := none }
  let element (name : String) (i18n : Option I18n.Meta) (outputs : List Template.BoundEvent)
      (children : List Template.Node) : Template.Node :=
    .element
      { name, attributes := [], inputs := [], outputs, children, references := [], span := here,
        startSpan := here, endSpan := none, i18n }
  let icu (id : String) : Template.Node :=
    .icu
      { vars := OrderedMap.ofList [("VAR", title)]
        placeholders := {}
        span := here
        i18n := some (.message
          { id, nodes := [.icuPlaceholder ⟨"count", "plural", [], here, none⟩ "ICU" here] }) }
  let click : Template.BoundEvent :=
    { name := "click", type := .regular
      handler := { ast := .propertyRead {} {} (.implicitReceiver {}) "open" }
      target := none, phase := none, span := here, handlerSpan := here }
  [element "section" (some (.message { id := "greeting" })) []
      [.boundText title, icu "greeting", icu "count",
        .ifBlock
          [⟨none, [element "ng-container" none [] [text "more"]], none, block,
            some (.node (.blockPlaceholder ⟨"if", [], "START", "CLOSE", [], here⟩))⟩]
          block],
    icu "total",
    .content ⟨"*", [], [text "nothing"], here, none⟩,
    .forBlock
      { item := { name := "item", value := "$implicit", span := here }
        expression := { ast := .propertyRead {} {} (.implicitReceiver {}) "items" }
        trackBy := { ast := .propertyRead {} {} (.implicitReceiver {}) "item" }
        contextVariables := []
        children := [element "button" none [click] [text "open"]]
        empty := some ⟨[text "empty"], block, none⟩
        block
        mainSpan := here
        i18n := none },
    .deferBlock ⟨[text "late"], {}, {}, {}, none, some ⟨[text "wait"], none, none, block, none⟩, none,
      block, here, none⟩]

example : Template.sketchNodes gallery =
    [.element "section"
        [.boundText, .icu [.boundText], .icu [.boundText],
          .branches [[.element "ng-container" [.text "more"]]]],
      .icu [.boundText],
      .content "*" (some [.text "nothing"]),
      .loop [.element "button" [.text "open"]] (some [.text "empty"]),
      .deferred [.text "late"] (some [.text "wait"]) none none] :=
  rfl

end TemplateLowering
