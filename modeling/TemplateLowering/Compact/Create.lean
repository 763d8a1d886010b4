import TemplateLowering.Compact.Update

/-!
# Create operations in the compact form
-/

namespace TemplateLowering.Compact

/-! ## Reading -/

/-- Reads update operations into a list with a fresh number. -/
def readUpdateList (file : SourceFile) (ops : List Json) :
    StateT Ids (Except Fault) (OpList UpdateOp) := do
  let id ← Ids.freshList
  editList (OpList.empty id id.index) (OpList.pushAll (ops.map (readUpdateOp file)))

def readElementBase (file : SourceFile) (j : Json) : ElementBase :=
  { xref := readXref j "xref"
    slot := j.natAt? "slot"
    localRefs :=
      (j.pairsAt (fun target => target.asText?.getD "") "local_refs").map fun (name, target) =>
        { name, target }
    nonBindable := j.boolAt "non_bindable"
    startSpan := readSpanAt file j "start_span"
    wholeSpan := readSpanAt file j "whole_span" }

def readBranchOp (file : SourceFile) (j : Json) : BranchOp :=
  { readElementBase file j with
    tag := j.textAt? "tag"
    suffix := j.textAt "suffix"
    placeholder := readBlockPlaceholder? file j "placeholder" }

def readViewPlaceholder? (file : SourceFile) (j : Json) (key : String) : Option ViewPlaceholder :=
  match j.readAt? (readI18nNode file) key with
  | some (.tagPlaceholder placeholder) => some (.tag placeholder)
  | some (.blockPlaceholder placeholder) => some (.block placeholder)
  | _ => none

def readDeferTrigger (j : Json) : DeferTrigger :=
  match j.textAt "trigger" with
  | "Immediate" => .immediate
  | "Never" => .never
  | "Timer" => .timer (j.intAt "delay")
  | "Hover" => .hover (j.textAt? "target_name")
  | "Interaction" => .interaction (j.textAt? "target_name")
  | "Viewport" => .viewport (j.textAt? "target_name")
  | _ => .idle

def readCreateOp (file : SourceFile) (j : Json) : StateT Ids (Except Fault) CreateOp := do
  let base := readElementBase file j
  let xref := base.xref
  let slot := base.slot
  let target := readXref j "target"
  let name := j.textAt "name"
  let tag := j.textAt? "tag"
  let span := readSpanAt file j "span"
  let span? := readSpanAt? file j "span"
  let ns := readName namespaces .html (j.textAt "namespace")
  let message := readMessage file (j.get "message")
  match j.textAt "k" with
  | "ElementStart" =>
      let placeholder := readTagPlaceholder? file j "placeholder"
      return .elementStart { base with tag := j.textAt "tag", ns, placeholder }
  | "ElementEnd" => return .elementEnd { xref, span := span? }
  | "ContainerStart" =>
      return .containerStart { base with placeholder := readTagPlaceholder? file j "placeholder" }
  | "ContainerEnd" => return .containerEnd { xref, span := span? }
  | "Template" =>
      let kind := readName templateKinds .ngTemplate (j.textAt "template_kind")
      let placeholder := readViewPlaceholder? file j "placeholder"
      return .template { base with tag, ns, kind, suffix := j.textAt "suffix", placeholder }
  | "ConditionalCreate" => return .conditionalCreate (readBranchOp file j)
  | "ConditionalBranchCreate" => return .conditionalBranchCreate (readBranchOp file j)
  | "RepeaterCreate" =>
      let trackByOps ←
        if j.has "track_by_ops" then some <$> readUpdateList file (j.itemsAt "track_by_ops")
        else pure none
      return .repeaterCreate
        { base with
          tag
          ns
          emptyView := readXref? j "empty_view"
          track := readExprAt file j "track"
          trackByOps
          trackByFn := readExprAt? file j "track_by_fn"
          indexNames :=
            (j.textsAt "dollar_index").foldl (fun names name => insertLast name names) []
          itemName := j.textAt "dollar_implicit"
          usesComponentInstance := j.boolAt "uses_component_instance"
          suffix := (j.textAt? "suffix").getD "For"
          emptyTag := j.textAt? "empty_tag"
          placeholder := readBlockPlaceholder? file j "placeholder"
          emptyPlaceholder := readBlockPlaceholder? file j "empty_placeholder" }
  | "Listener" =>
      let handler ← readUpdateList file (j.itemsAt "handler_ops")
      let phase := j.textAt? "phase"
      return .listener
        { target
          slot
          isHost := j.boolAt "host_listener"
          name
          tag
          handler
          consumesEvent := j.boolAt "consumes_dollar_event"
          isAnimation := phase.isSome
          phase
          eventTarget := j.textAt? "event_target"
          span }
  | "Text" =>
      let placeholder := j.textAt? "placeholder"
      return .text { xref, slot, value := j.textAt "value", placeholder, span := span? }
  | "Projection" =>
      return .projection
        { xref
          slot
          selector := j.textAt "selector"
          index := j.natAt "index"
          fallbackView := readXref? j "fallback_view"
          placeholder := readTagPlaceholder? file j "placeholder"
          span }
  | "ExtractedAttribute" =>
      return .extractedAttribute
        { target
          kind := readName bindingKinds .property (j.textAt "binding_kind")
          namespaceKey := j.textAt? "namespace"
          name
          expr := readExprAt? file j "expr"
          i18nContext := readXref? j "i18n_context"
          message := j.readAt? (readMessage file) "message"
          security := readSecurity j
          span := span? }
  | "Defer" =>
      return .defer
        { xref
          slot
          mainView := readXref j "main_view"
          loadingView := readXref? j "loading_view"
          loadingSlot := (j.natAt? "loading_slot").map some
          span }
  | "DeferOn" =>
      let defer := readXref j "defer"
      return .deferOn { defer, trigger := readDeferTrigger j, modifier := readModifier j, span }
  | "I18nStart" =>
      return .i18nStart
        { xref
          slot
          root := (readXref? j "root").getD xref
          message
          messageIndex := j.natAt? "message_index"
          subTemplateIndex := j.natAt? "sub_template_index"
          context := readXref? j "context"
          span := span? }
  | "I18nEnd" => return .i18nEnd { xref, span := span? }
  | "I18nContext" =>
      let kind := readName contextKinds .rootI18n (j.textAt "context_kind")
      return .i18nContext
        { xref, kind, block := readXref? j "i18n_block", message, span := span? }
  | "I18nAttributes" => return .i18nAttributes { xref, slot, target }
  | "IcuStart" =>
      let placeholder := j.textAt "placeholder"
      return .icuStart { xref, message, placeholder, context := readXref? j "context", span }
  | "IcuEnd" => return .icuEnd xref
  | "DeclareLet" => return .declareLet { xref, slot, name, span }
  | "Variable" => return .variableDecl (readVariableOp file j)
  | "Statement" => return .statement (readStatement file (j.get "stmt"))
  | _ => return .listEnd

/-! ## Writing -/

def writeOps {α : Type} (write : α → Json) (ops : OpList α) : Json :=
  .record [("list", .nat ops.id.index), ("ops", .ofList write ops.toList)]

def writeUpdateList (ops : OpList UpdateOp) : Json :=
  writeOps writeUpdateOp ops

def writeLocalRef (ref : LocalRef) : Json :=
  .array [.text ref.name, .text ref.target]

def baseFields (base : ElementBase) : List (String × Json) :=
  [("slot", .optNat base.slot), ("non_bindable", .bool base.nonBindable),
    ("local_refs", .ofList writeLocalRef base.localRefs), ("start_span", writeSpan base.startSpan),
    ("whole_span", writeSpan base.wholeSpan)]

def tagFields (tag : Option String) (ns : Namespace) : List (String × Json) :=
  [("tag", .optText tag), ("namespace", writeName namespaces ns)]

def viewFields (kind : TemplateKind) (suffix : String) (placeholder : Json) :
    List (String × Json) :=
  [("template_kind", writeName templateKinds kind), ("suffix", .text suffix),
    ("placeholder", placeholder)]

def writeViewPlaceholder : ViewPlaceholder → Json
  | .tag placeholder => writeTag placeholder
  | .block placeholder => writeBlock placeholder

/-- A slot that may be reserved without being numbered yet. -/
def writeSlot? (slot : Option Slot) : Json :=
  .ofOption (fun slot => .record [("slot", .optNat slot)]) slot

def triggerFields (trigger : DeferTrigger) : List (String × Json) :=
  let (kind, fields) : String × List (String × Json) :=
    match trigger with
    | .idle => ("Idle", [])
    | .immediate => ("Immediate", [])
    | .never => ("Never", [])
    | .timer delay => ("Timer", [("delay", .int delay)])
    | .hover target => ("Hover", [("target_name", .optText target)])
    | .interaction target => ("Interaction", [("target_name", .optText target)])
    | .viewport target => ("Viewport", [("target_name", .optText target)])
  ("trigger", .text kind) :: fields

/-- The fields of a create operation other than its kind and its number. -/
def createFields : CreateOp → List (String × Json)
  | .listEnd => []
  | .elementStart op =>
      baseFields op.toElementBase ++
        tagFields op.tag op.ns ++ [("placeholder", .ofOption writeTag op.placeholder)]
  | .elementEnd op | .containerEnd op | .i18nEnd op => [("span", writeSpan? op.span)]
  | .containerStart op =>
      baseFields op.toElementBase ++ [("placeholder", .ofOption writeTag op.placeholder)]
  | .template op =>
      baseFields op.toElementBase ++ tagFields op.tag op.ns ++
        viewFields op.kind op.suffix (.ofOption writeViewPlaceholder op.placeholder)
  | .conditionalCreate op | .conditionalBranchCreate op =>
      baseFields op.toElementBase ++ tagFields op.tag op.ns ++
        viewFields op.kind op.suffix (.ofOption writeBlock op.placeholder)
  | .repeaterCreate op =>
      baseFields op.toElementBase ++ tagFields op.tag op.ns ++
        [("empty_view", writeXref? op.emptyView), ("track", writeExpr op.track),
          ("track_by_ops", .ofOption writeUpdateList op.trackByOps),
          ("track_by_fn", writeExpr? op.trackByFn), ("dollar_index", .texts op.indexNames),
          ("dollar_implicit", .text op.itemName),
          ("uses_component_instance", .bool op.usesComponentInstance), ("suffix", .text op.suffix),
          ("empty_tag", .optText op.emptyTag),
          ("placeholder", .ofOption writeBlock op.placeholder),
          ("empty_placeholder", .ofOption writeBlock op.emptyPlaceholder)]
  | .listener op =>
      [("target", writeXref op.target), ("slot", .optNat op.slot),
        ("host_listener", .bool op.isHost), ("name", .text op.name), ("tag", .optText op.tag),
        ("handler_ops", writeUpdateList op.handler),
        ("consumes_dollar_event", .bool op.consumesEvent),
        ("is_legacy_animation", .bool op.isAnimation), ("phase", .optText op.phase),
        ("event_target", .optText op.eventTarget), ("span", writeSpan op.span)]
  | .text op =>
      [("slot", .optNat op.slot), ("value", .text op.value),
        ("placeholder", .optText op.placeholder), ("span", writeSpan? op.span)]
  | .projection op =>
      [("slot", .optNat op.slot), ("selector", .text op.selector), ("index", .nat op.index),
        ("fallback_view", writeXref? op.fallbackView),
        ("placeholder", .ofOption writeTag op.placeholder), ("span", writeSpan op.span)]
  | .extractedAttribute op =>
      [("target", writeXref op.target), ("binding_kind", writeName bindingKinds op.kind),
        ("namespace", .optText op.namespaceKey), ("name", .text op.name),
        ("expr", writeExpr? op.expr), ("i18n_context", writeXref? op.i18nContext),
        ("message", writeMessage? op.message), ("security", writeSecurity op.security),
        ("span", writeSpan? op.span)]
  | .defer op =>
      [("slot", .optNat op.slot), ("main_view", writeXref op.mainView),
        ("main_slot", .optNat op.mainSlot), ("loading_view", writeXref? op.loadingView),
        ("loading_slot", writeSlot? op.loadingSlot),
        ("placeholder_view", writeXref? op.placeholderView),
        ("placeholder_slot", writeSlot? op.placeholderSlot),
        ("error_view", writeXref? op.errorView), ("error_slot", writeSlot? op.errorSlot),
        ("placeholder_minimum_time", .optInt op.placeholderMinimumTime),
        ("loading_minimum_time", .optInt op.loadingMinimumTime),
        ("loading_after_time", .optInt op.loadingAfterTime), ("span", writeSpan op.span)]
  | .deferOn op =>
      triggerFields op.trigger ++
        [("defer", writeXref op.defer), ("modifier", writeName triggerModifiers op.modifier),
          ("span", writeSpan op.span)]
  | .i18nStart op =>
      [("slot", .optNat op.slot), ("root", writeXref op.root), ("message", writeMessage op.message),
        ("message_index", .optNat op.messageIndex),
        ("sub_template_index", .optNat op.subTemplateIndex), ("context", writeXref? op.context),
        ("span", writeSpan? op.span)]
  | .i18nContext op =>
      [("context_kind", writeName contextKinds op.kind), ("i18n_block", writeXref? op.block),
        ("message", writeMessage op.message), ("span", writeSpan? op.span)]
  | .i18nAttributes op => [("slot", .optNat op.slot), ("target", writeXref op.target)]
  | .icuStart op =>
      [("message", writeMessage op.message), ("placeholder", .text op.placeholder),
        ("context", writeXref? op.context), ("span", writeSpan op.span)]
  | .icuEnd _ => []
  | .declareLet op =>
      [("slot", .optNat op.slot), ("name", .text op.name), ("span", writeSpan op.span)]
  | .variableDecl op => variableFields op
  | .statement body => [("stmt", writeStatement body)]

def writeCreateOp (op : CreateOp) : Json :=
  .slim (("k", .text op.kindName) :: ("xref", writeXref? op.xref?) :: createFields op)

end TemplateLowering.Compact
