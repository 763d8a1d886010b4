import TemplateLowering.Lowering.Binding
import TemplateLowering.Text.Blank

/-!
# Lowering template nodes

`lowerNodes` lowers a sequence of template nodes that stands in one view.  The result is a
fragment: what the nodes add to the create and update operations of their view, and the finished
embedded views that they declare.
-/

namespace TemplateLowering

open Template (Text BoundText Node)

def splitTag (name : String) : Lower TagName :=
  match TagName.split name with
  | .ok tag => return tag
  | .error bad => throw (.invalidName bad)

def localRefs (references : List Template.Reference) : List LocalRef :=
  references.map fun reference => { name := reference.name, target := reference.value }

/-! ## Texts -/

/-- A literal text.  Inside an ICU expression it stands for a placeholder. -/
def lowerText (icuPlaceholder : Option String) (text : Text) : Lower Fragment := do
  let xref ← Ids.freshXref
  return {
    create :=
      [.text { xref, value := text.value, placeholder := icuPlaceholder, span := some text.span }] }

/-- The placeholder names of a translated text, one for each interpolated expression. -/
def textPlaceholders (text : BoundText) : Lower (List String) :=
  match text.i18n with
  | none => return []
  | some (.node (.container children _)) =>
      return children.filterMap fun
        | .placeholder _ name _ => some name
        | _ => none
  | some other => rejectI18n "BoundText" "Container" (some other) text.span

def textInterpolation (text : BoundText) : Lower (List String × List Ast) :=
  match text.value.ast with
  | .interpolation _ strings expressions => return (strings, expressions)
  | other => throw (.expectedInterpolation "bound text" other.typeName text.span)

def lowerBoundText (facts : JobFacts) (icuPlaceholder : Option String) (text : BoundText) :
    Lower Fragment := do
  let (strings, asts) ← textInterpolation text
  let placeholders ← textPlaceholders text
  let base := match facts.compatibility with
    | .templateDefinitionBuilder => none
    | .normal => some text.span
  let expressions ← lowerAll facts.root base asts
  let interpolation ←
    MonadExcept.ofExcept (Interpolation.checked strings expressions placeholders)
  let xref ← Ids.freshXref
  return {
    create :=
      [.text { xref, value := "", placeholder := icuPlaceholder, span := some text.span }]
    update := [.interpolateText { target := xref, interpolation, span := text.span }] }

/-! ## ICU expressions -/

/-- The message of an ICU expression and the name of its one placeholder. -/
def icuMessage (icu : Template.Icu) : Lower (I18n.Message × String) :=
  match icu.i18n with
  | some (.message message) =>
      match message.singleIcu? with
      | some placeholder => return (message, placeholder)
      | none => rejectI18n "Icu" "a single-ICU Message" (some (.message message)) icu.span
  | other => rejectI18n "Icu" "Message" other icu.span

def lowerIcuVars (facts : JobFacts) : List (String × BoundText) → Lower Fragment
  | [] => return {}
  | (placeholder, text) :: rest => do
      let first ← lowerBoundText facts (some placeholder) text
      let others ← lowerIcuVars facts rest
      return first ++ others

def lowerIcuPlaceholders (facts : JobFacts) :
    List (String × Template.IcuPlaceholder) → Lower Fragment
  | [] => return {}
  | (placeholder, .text text) :: rest => do
      let first ← lowerText (some placeholder) text
      let others ← lowerIcuPlaceholders facts rest
      return first ++ others
  | (placeholder, .boundText text) :: rest => do
      let first ← lowerBoundText facts (some placeholder) text
      let others ← lowerIcuPlaceholders facts rest
      return first ++ others

def lowerIcu (facts : JobFacts) (icu : Template.Icu) : Lower Fragment := do
  let (message, placeholder) ← icuMessage icu
  let xref ← Ids.freshXref
  let vars ← lowerIcuVars facts icu.vars.entries
  let placeholders ← lowerIcuPlaceholders facts icu.placeholders.entries
  let start : Fragment := {
    create := [.icuStart { xref, message, placeholder, span := icu.span }] }
  let stop : Fragment := { create := [.icuEnd xref] }
  return start ++ vars ++ placeholders ++ stop

/-! ## Declarations -/

def lowerLet (facts : JobFacts) (declaration : Template.LetDeclaration) : Lower Fragment := do
  let target ← Ids.freshXref
  let value ← declaration.value.lower facts.root (some declaration.valueSpan)
  return {
    create := [.declareLet { xref := target, name := declaration.name, span := declaration.span }]
    update :=
      [.storeLet { target, name := declaration.name, value, span := declaration.span }] }

/-! ## Loop variables -/

/-- The names under which the index and the count of one loop are known, whatever loops surround
it. -/
structure LoopNames where
  index : String
  count : String

def LoopNames.ofView (view : Xref) : LoopNames :=
  { index := "ɵ$index_" ++ toString view.index, count := "ɵ$count_" ++ toString view.index }

/-- What a loop variable stands for, in terms of the index and the count of the loop. -/
def loopVariable (names : LoopNames) (variable_ : Template.Variable) : Lower Expr :=
  let index : Expr := .lexicalRead names.index none
  let count : Expr := .lexicalRead names.count none
  match variable_.value with
  | "$index" => return index
  | "$count" => return count
  | "$first" => return index.op .identical (.number .zero)
  | "$last" => return index.op .identical (count.op .minus (.number .one))
  | "$even" => return (index.op .modulo (.number .two)).op .identical (.number .zero)
  | "$odd" => return (index.op .modulo (.number .two)).op .notIdentical (.number .zero)
  | name => throw (.unknownLoopVariable name variable_.span)

/-- What the variables of a loop declare in its view. -/
structure LoopScope where
  indexNames : List String := []
  contextVariables : OrderedMap String String := {}
  aliases : List AliasVariable := []

/-- Adds one of the loop's variables.  The index and the count are also known under the names of
this very loop; any other name is computed from them. -/
def LoopScope.add (names : LoopNames) (scope : LoopScope) (variable_ : Template.Variable) :
    Lower LoopScope := do
  let scope :=
    if variable_.value = "$index" then
      { scope with indexNames := insertLast variable_.name scope.indexNames }
    else
      scope
  let declare (loopName : String) : LoopScope :=
    { scope with
      contextVariables :=
        (scope.contextVariables.insert variable_.name variable_.value).insert loopName
          variable_.value }
  if variable_.name = "$index" then
    return declare names.index
  else if variable_.name = "$count" then
    return declare names.count
  else
    let expression ← loopVariable names variable_
    return {
      scope with
      aliases := scope.aliases ++ [{ identifier := variable_.name, expression }] }

/-! ## Triggers of deferred blocks -/

/-- The trigger that an operation keeps, and its span; a condition is no such trigger. -/
def deferTrigger? : Template.Trigger → Option (DeferTrigger × SourceSpan)
  | .idle span => some (.idle, span)
  | .immediate span => some (.immediate, span)
  | .never span => some (.never, span)
  | .timer delay span => some (.timer delay, span)
  | .hover reference span => some (.hover reference, span)
  | .interaction reference span => some (.interaction reference, span)
  | .viewport reference span => some (.viewport reference, span)
  | .bound .. => none

/-- The trigger operations of a deferred block. -/
structure DeferTriggers where
  on : List DeferOnOp := []
  when_ : List DeferWhenOp := []

def lowerTriggers (facts : JobFacts) (defer : Xref) (modifier : TriggerModifier)
    (set : Template.TriggerSet) : Lower DeferTriggers := do
  let on := set.onTriggers.filterMap fun trigger =>
    (deferTrigger? trigger).map fun (trigger, span) => { defer, trigger, modifier, span }
  match set.when_ with
  | some (.bound value span) =>
      let expr ← value.lower facts.root (some span)
      return { on, when_ := [{ target := defer, expr, modifier, span }] }
  | _ => return { on }

/-- The operations of all triggers of a deferred block: those for hydration first.  A block without
a plain trigger loads when the browser is idle. -/
def lowerAllTriggers (facts : JobFacts) (defer : Xref) (span : SourceSpan)
    (hydrate plain prefetch : Template.TriggerSet) : Lower DeferTriggers := do
  let hydrate ← lowerTriggers facts defer .hydrate hydrate
  let plain ← lowerTriggers facts defer .none plain
  let prefetch ← lowerTriggers facts defer .prefetch prefetch
  let on := hydrate.on ++ plain.on ++ prefetch.on
  let when_ := hydrate.when_ ++ plain.when_ ++ prefetch.when_
  if on.any (·.modifier = .none) || when_.any (·.modifier = .none) then
    return { on, when_ }
  else
    return { on := on ++ [{ defer, trigger := .idle, modifier := .none, span }], when_ }

/-! ## Nodes -/

/-- Whether a template is explicit rather than that of a structural directive. -/
def isPlainTemplate (tagName : Option String) : Bool :=
  (TagName.splitLenient (tagName.getD "")).name == ngTemplateTag

/-- Whether the children of a content node are more than white space and comments. -/
def hasFallback (children : List Node) : Bool :=
  children.any fun
    | .comment _ => false
    | .text text => !Text.isAllBlank text.value
    | _ => true

/-- The start and end of the message that an element or a template is the root of. -/
def lowerBlockBrackets (i18n : Option I18n.Meta) (startSpan : SourceSpan)
    (endSpan : Option SourceSpan) : Lower (List CreateOp × List CreateOp) :=
  match i18n with
  | some (.message message) => do
      let xref ← Ids.freshXref
      pure
        ([.i18nStart { xref, root := xref, message, span := some startSpan }],
          [.i18nEnd { xref, span := some (endSpan.getD startSpan) }])
  | _ => return ([], [])

/-- The placeholder of a node that may be the root of a message or a tag inside one. -/
def tagPlaceholderOf (i18n : Option I18n.Meta) (node : String) (span : SourceSpan) :
    Lower (Option I18n.TagPlaceholder) :=
  match i18n with
  | none => return none
  | some (.message _) => return none
  | some (.node (.tagPlaceholder placeholder)) => return some placeholder
  | some other => rejectI18n node "Message or TagPlaceholder" (some other) span

/-- The placeholder of a node that can only be a tag inside a message. -/
def contentPlaceholderOf (i18n : Option I18n.Meta) (span : SourceSpan) :
    Lower (Option I18n.TagPlaceholder) :=
  match i18n with
  | none => return none
  | some (.node (.tagPlaceholder placeholder)) => return some placeholder
  | some other => rejectI18n "Content" "TagPlaceholder" (some other) span

/-- A view that has been filled, with the views below it. -/
def embed (ids : ViewIds) (parent : Xref) (content : Fragment)
    (contextVariables : OrderedMap String String) (aliases : List AliasVariable) :
    Fragment :=
  { views :=
      { ids.view (some parent) content.create content.update with
        contextVariables, aliases } :: content.views }

/-- The view of a part of a deferred block, declared by a template operation. -/
def embedDeferred (ids : ViewIds) (parent : Xref) (suffix : String)
    (placeholder : Option I18n.BlockPlaceholder) (block : Template.BlockSpans)
    (content : Fragment) : Fragment :=
  let declaration : Fragment := {
    create :=
      [.template
        { xref := ids.xref
          startSpan := block.whole
          wholeSpan := block.whole
          tag := none
          ns := .html
          kind := .block
          suffix := "Defer" ++ suffix
          placeholder := placeholder.map .block }] }
  declaration ++ embed ids parent content {} []

/-- The operation that declares a branch: the first branch of a block opens it. -/
def branchOp (isFirst : Bool) (op : BranchOp) : CreateOp :=
  if isFirst then .conditionalCreate op else .conditionalBranchCreate op

def lowerCondition (facts : JobFacts) (base : Option SourceSpan) (condition : Option Ast) :
    Lower (Option Expr) :=
  match condition with
  | some ast => some <$> ast.lower facts.root base
  | none => return none

mutual

/-- The fragment of a node that stands in the view `view`. -/
def lowerNode (facts : JobFacts) (view : Xref) : Node → Lower Fragment
  | .comment _ => return {}
  | .text text => lowerText none text
  | .boundText text => lowerBoundText facts none text
  | .element element => lowerElement facts view element
  | .template template => lowerTemplate facts view template
  | .content content => lowerContent facts view content
  | .ifBlock branches block => do
      let (fragment, cases) ← lowerIfBranches facts view true branches
      match cases with
      | [] => return fragment
      | first :: _ =>
          let conditional : Fragment := {
            update :=
              [.conditional { target := first.target, test := none, cases, span := block.whole }] }
          return fragment ++ conditional
  | .switchBlock expression switchCases block => do
      let (fragment, cases) ← lowerSwitchCases facts view block.start true switchCases
      match cases with
      | [] => return fragment
      | first :: _ =>
          let test ← expression.lower facts.root none
          let conditional : Fragment := {
            update :=
              [.conditional
                { target := first.target, test := some test, cases, span := block.whole }] }
          return fragment ++ conditional
  | .forBlock block => lowerFor facts view block
  | .deferBlock block => lowerDefer facts view block
  | .icu icu => lowerIcu facts icu
  | .letDeclaration declaration => lowerLet facts declaration
  | .unknownBlock _ span => throw (.unsupportedNode "UnknownBlock" span)

/-- The fragment of a sequence of nodes that stands in the view `view`. -/
def lowerNodes (facts : JobFacts) (view : Xref) : List Node → Lower Fragment
  | [] => return {}
  | node :: nodes => do
      let first ← lowerNode facts view node
      let others ← lowerNodes facts view nodes
      return first ++ others

def lowerElement (facts : JobFacts) (view : Xref) : Template.Element → Lower Fragment
  | { name, attributes, inputs, outputs, children, references, span, startSpan, endSpan,
      i18n } => do
      let placeholder ← tagPlaceholderOf i18n "Element" startSpan
      let xref ← Ids.freshXref
      let tag ← splitTag name
      let start : Fragment := {
        create :=
          [.elementStart
            { xref
              localRefs := localRefs references
              startSpan
              wholeSpan := span
              tag := tag.name
              ns := .ofKey tag.key
              placeholder }] }
      let bindings ←
        lowerElementBindings facts.root xref none name tag.name attributes inputs outputs
      let (opening, closing) ← lowerBlockBrackets i18n startSpan endSpan
      let content ← lowerNodes facts view children
      let stop : Fragment := {
        create := closing ++ [.elementEnd { xref, span := some (endSpan.getD startSpan) }] }
      return start ++ bindings ++ { create := opening } ++ content ++ stop

def lowerTemplate (facts : JobFacts) (view : Xref) : Template.EmbeddedTemplate → Lower Fragment
  | { tagName, attributes, inputs, outputs, templateAttributes, children, references, letVariables,
      span, startSpan, endSpan, i18n } => do
      let placeholder ← tagPlaceholderOf i18n "Template" startSpan
      let ids ← Ids.freshView
      let tag ← match tagName with
        | some name => some <$> splitTag name
        | none => pure none
      let ns := Namespace.ofKey (tag.bind TagName.key)
      let kind : TemplateKind := if isPlainTemplate tagName then .ngTemplate else .structural
      let declaration : Fragment := {
        create :=
          [.template
            { xref := ids.xref
              localRefs := localRefs references
              startSpan
              wholeSpan := span
              tag := tag.map TagName.name
              ns
              kind
              suffix := (tag.map fun tag => ns.qualify tag.name).getD ""
              placeholder := placeholder.map .tag }] }
      let bindings ←
        lowerTemplateBindings facts.root ids.xref none (tag.map TagName.name) kind
          (templateAttributes.map TemplateInput.ofTemplateAttribute ++
            attributes.map (TemplateInput.ofText false) ++
            inputs.map (TemplateInput.ofBound false))
          outputs
      let content ← lowerNodes facts ids.xref children
      let contextVariables := OrderedMap.ofList (letVariables.map fun variable_ =>
        (variable_.name, if variable_.value.isEmpty then "$implicit" else variable_.value))
      let (opening, closing) ←
        if kind = .ngTemplate then lowerBlockBrackets i18n startSpan endSpan else pure ([], [])
      let bracketed : Fragment := { create := opening } ++ content ++ { create := closing }
      return declaration ++ bindings ++ embed ids view bracketed contextVariables []

def lowerContent (facts : JobFacts) (view : Xref) : Template.Content → Lower Fragment
  | { selector, attributes, children, span, i18n } => do
      let placeholder ← contentPlaceholderOf i18n span
      let (fallbackView, fallback) ←
        if hasFallback children then do
          let ids ← Ids.freshView
          let content ← lowerNodes facts ids.xref children
          pure (some ids.xref, embed ids view content {} [])
        else
          pure (none, {})
      let xref ← Ids.freshXref
      let bindings ← attributes.mapM (lowerTextAttribute xref ngContentTag)
      let projection : Fragment := {
        create := [.projection { xref, selector, fallbackView, placeholder, span }]
        update := bindings.map .binding }
      return fallback ++ projection

/-- The branches of an `@if` block: what they add to the view, and the cases to choose from. -/
def lowerIfBranches (facts : JobFacts) (view : Xref) (isFirst : Bool) :
    List Template.IfBranch → Lower (Fragment × List ConditionalCase)
  | [] => return ({}, [])
  | { expression, children, aliasVariable, block, i18n } :: branches => do
      let ids ← Ids.freshView
      let (tag, copies) ← lowerBranchRoot ids.xref children
      let placeholder ← blockPlaceholderOf i18n "IfBlockBranch" block.start
      let condition ← lowerCondition facts none expression
      let content ← lowerNodes facts ids.xref children
      let aliasName := aliasVariable.map Template.Variable.name
      let contextVariables := OrderedMap.ofList
        (aliasName.toList.map fun name => (name, "CTX_REF_MARKER"))
      let declaration : Fragment := {
        create :=
          [branchOp isFirst
            { xref := ids.xref
              startSpan := block.start
              wholeSpan := block.whole
              tag
              suffix := "Conditional"
              placeholder }] }
      let (others, cases) ← lowerIfBranches facts view false branches
      pure
        (copies ++ declaration ++ embed ids view content contextVariables [] ++ others,
          { condition, target := ids.xref, slot := none, aliasName } :: cases)

/-- The cases of a `@switch` block: what they add to the view, and the cases to choose from. -/
def lowerSwitchCases (facts : JobFacts) (view : Xref) (base : SourceSpan) (isFirst : Bool) :
    List Template.SwitchCase → Lower (Fragment × List ConditionalCase)
  | [] => return ({}, [])
  | { expression, children, block, i18n } :: switchCases => do
      let ids ← Ids.freshView
      let (tag, copies) ← lowerBranchRoot ids.xref children
      let placeholder ← blockPlaceholderOf i18n "SwitchBlockCase" block.start
      let condition ← lowerCondition facts (some base) expression
      let content ← lowerNodes facts ids.xref children
      let declaration : Fragment := {
        create :=
          [branchOp isFirst
            { xref := ids.xref
              startSpan := block.start
              wholeSpan := block.whole
              tag
              suffix := "Case"
              placeholder }] }
      let (others, cases) ← lowerSwitchCases facts view base false switchCases
      pure
        (copies ++ declaration ++ embed ids view content {} [] ++ others,
          { condition, target := ids.xref, slot := none, aliasName := none } :: cases)

/-- What a `@for` block shows when there is nothing to repeat: its view, if there is one, the tag
that stands for it, and the fragment. -/
def lowerForEmpty (facts : JobFacts) (view : Xref) :
    Option Template.ForEmpty → Lower (Option Xref × Option String × Fragment)
  | none => return (none, none, {})
  | some { children, .. } => do
      let ids ← Ids.freshView
      let content ← lowerNodes facts ids.xref children
      let (tag, copies) ← lowerBranchRoot ids.xref children
      return (some ids.xref, tag, copies ++ embed ids view content {} [])

def lowerFor (facts : JobFacts) (view : Xref) : Template.ForBlock → Lower Fragment
  | { item, expression, trackBy, contextVariables, children, empty, block, i18n, .. } => do
      let placeholder ← blockPlaceholderOf i18n "ForLoopBlock" block.start
      let emptyPlaceholder ← match empty with
        | some empty => blockPlaceholderOf empty.i18n "ForLoopBlockEmpty" empty.block.start
        | none => pure none
      let ids ← Ids.freshView
      let scope ←
        contextVariables.foldlM (LoopScope.add (.ofView ids.xref))
          { contextVariables := OrderedMap.ofList [(item.name, item.value)] }
      let track ←
        trackBy.ast.lower facts.root (trackBy.ast.span.resolve? (some block.whole))
      let content ← lowerNodes facts ids.xref children
      let (emptyView, emptyTag, emptyFragment) ← lowerForEmpty facts view empty
      let (tag, copies) ← lowerBranchRoot ids.xref children
      let collection ←
        expression.ast.lower facts.root (expression.ast.span.resolve? (some block.whole))
      let repeater : Fragment := {
        create :=
          [.repeaterCreate
            { xref := ids.xref
              startSpan := block.start
              wholeSpan := block.whole
              tag
              emptyView
              track
              indexNames := scope.indexNames
              itemName := item.name
              emptyTag
              placeholder
              emptyPlaceholder }]
        update :=
          [.repeater { target := ids.xref, slot := none, collection, span := block.whole }] }
      return embed ids view content scope.contextVariables scope.aliases ++ emptyFragment ++
        copies ++ repeater

def lowerDefer (facts : JobFacts) (view : Xref) : Template.DeferBlock → Lower Fragment
  | { children, triggers, prefetchTriggers, hydrateTriggers, placeholder, loading, error, block,
      i18n, .. } => do
      let mainPlaceholder ← blockPlaceholderOf i18n "DeferredBlock" block.start
      let mainIds ← Ids.freshView
      let content ← lowerNodes facts mainIds.xref children
      let main := embedDeferred mainIds view "" mainPlaceholder block content
      let (loadingView, loadingFragment) ← lowerDeferLoading facts view loading
      let (placeholderView, placeholderFragment) ← lowerDeferPlaceholder facts view placeholder
      let (errorView, errorFragment) ← lowerDeferError facts view error
      let xref ← Ids.freshXref
      let lowered ←
        lowerAllTriggers facts xref block.whole hydrateTriggers triggers prefetchTriggers
      let defer : Fragment := {
        create :=
          .defer
            { xref
              mainView := mainIds.xref
              loadingView
              loadingSlot := loadingView.map fun _ => none
              placeholderView
              placeholderSlot := placeholderView.map fun _ => none
              errorView
              errorSlot := errorView.map fun _ => none
              placeholderMinimumTime := placeholder.bind Template.DeferPlaceholder.minimumTime
              loadingMinimumTime := loading.bind Template.DeferLoading.minimumTime
              loadingAfterTime := loading.bind Template.DeferLoading.afterTime
              span := block.whole } :: lowered.on.map .deferOn
        update := lowered.when_.map .deferWhen }
      return main ++ loadingFragment ++ placeholderFragment ++ errorFragment ++ defer

def lowerDeferLoading (facts : JobFacts) (view : Xref) :
    Option Template.DeferLoading → Lower (Option Xref × Fragment)
  | none => return (none, {})
  | some { children, block, i18n, .. } => do
      let placeholder ← blockPlaceholderOf i18n "DeferredBlock" block.start
      let ids ← Ids.freshView
      let content ← lowerNodes facts ids.xref children
      return (some ids.xref, embedDeferred ids view "Loading" placeholder block content)

def lowerDeferPlaceholder (facts : JobFacts) (view : Xref) :
    Option Template.DeferPlaceholder → Lower (Option Xref × Fragment)
  | none => return (none, {})
  | some { children, block, i18n, .. } => do
      let placeholder ← blockPlaceholderOf i18n "DeferredBlock" block.start
      let ids ← Ids.freshView
      let content ← lowerNodes facts ids.xref children
      return (some ids.xref, embedDeferred ids view "Placeholder" placeholder block content)

def lowerDeferError (facts : JobFacts) (view : Xref) :
    Option Template.DeferError → Lower (Option Xref × Fragment)
  | none => return (none, {})
  | some { children, block, i18n, .. } => do
      let placeholder ← blockPlaceholderOf i18n "DeferredBlock" block.start
      let ids ← Ids.freshView
      let content ← lowerNodes facts ids.xref children
      return (some ids.xref, embedDeferred ids view "Error" placeholder block content)

end

end TemplateLowering
