import TemplateLowering.Interchange.Ast
import TemplateLowering.Template.Node

/-!
# Triggers in the interchange form

The kind of a trigger is the only key of an object.
-/

namespace TemplateLowering.Interchange

open Template (Trigger TriggerSet)

def triggerCases : List (String × Fields Trigger) :=
  let reference := text? "reference"
  [("Bound", .bound <$> field readAst "value" <*> sourceSpan), ("Never", .never <$> sourceSpan),
    ("Idle", .idle <$> sourceSpan), ("Immediate", .immediate <$> sourceSpan),
    ("Hover", .hover <$> reference <*> sourceSpan),
    ("Timer", .timer <$> field readInt "delay" <*> sourceSpan),
    ("Interaction", .interaction <$> reference <*> sourceSpan),
    ("Viewport", .viewport <$> reference <*> sourceSpan)]

/-- As an array the fields of a trigger are read only inside a tagged value. -/
def readTrigger : Reader Trigger := fun nested j => do
  let (kind, fields) ← taggedOutside? j
  if nested || fields.isObject then readCase triggerCases nested kind fields else none

def readTriggerSet : Reader TriggerSet :=
  let trigger := field? readTrigger
  record
    (.mk <$> trigger "when" <*> trigger "idle" <*> trigger "immediate" <*> trigger "hover" <*>
      trigger "timer" <*> trigger "interaction" <*> trigger "viewport" <*> trigger "never")

def triggerFields : Trigger → List (String × Json)
  | .bound value span => [("value", writeAst value), ("source_span", writeSpan span)]
  | .never span | .idle span | .immediate span => [("source_span", writeSpan span)]
  | .timer delay span => [("delay", .int delay), ("source_span", writeSpan span)]
  | .hover reference span | .interaction reference span | .viewport reference span =>
      [("reference", .optText reference), ("source_span", writeSpan span)]

def writeTrigger (trigger : Trigger) : Json :=
  .record [(trigger.kindName, .record (triggerFields trigger))]

def writeTrigger? (trigger : Option Trigger) : Json := .ofOption writeTrigger trigger

def writeTriggerSet (set : TriggerSet) : Json :=
  .record
    [("when", writeTrigger? set.when_), ("idle", writeTrigger? set.idle),
      ("immediate", writeTrigger? set.immediate), ("hover", writeTrigger? set.hover),
      ("timer", writeTrigger? set.timer), ("interaction", writeTrigger? set.interaction),
      ("viewport", writeTrigger? set.viewport), ("never", writeTrigger? set.never)]

end TemplateLowering.Interchange
