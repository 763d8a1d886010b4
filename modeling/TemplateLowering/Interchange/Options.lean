import TemplateLowering.Json.Parser
import TemplateLowering.Options

/-!
# Options in JSON

Options are written as an object.  Keys that mean nothing are skipped and missing ones take their
defaults; a key that comes twice and a value of the wrong type are errors.  An array gives the
options in a fixed order.
-/

namespace TemplateLowering

/-- A mode, as its name or as an object with the name for its only key. -/
def CompatibilityMode.ofName? (name : String) : Option CompatibilityMode :=
  if name = "normal" then some .normal
  else if name = "templateDefinitionBuilder" then some .templateDefinitionBuilder
  else none

def CompatibilityMode.name : CompatibilityMode → String
  | .normal => "normal"
  | .templateDefinitionBuilder => "templateDefinitionBuilder"

def CompatibilityMode.ofJson? : Json → Option CompatibilityMode
  | .string text => text.bind ofName?
  | .object [{ key, value := .null }] => key.bind ofName?
  | _ => none

namespace Options

/-- The options in the order of the array form, each with a function that reads it. -/
def readers : List (String × (Options → Json → Option Options)) :=
  [("compatibilityMode", fun options value => do
      let compatibilityMode ← CompatibilityMode.ofJson? value
      return { options with compatibilityMode }),
    ("i18nUseExternalIds", fun options value => do
      let i18nUseExternalIds ← value.asBool?
      return { options with i18nUseExternalIds }),
    ("enableDebugLocations", fun options value => do
      let enableDebugLocations ← value.asBool?
      return { options with enableDebugLocations }),
    ("relativeContextFilePath", fun options value => do
      let relativeContextFilePath ← value.asText?
      return { options with relativeContextFilePath })]

/-- Reads the fields of an object; `seen` are the known keys so far. -/
def readFields (options : Options) (seen : List String) : List JsonField → Option Options
  | [] => some options
  | { key, value } :: fields => do
      let key ← key
      match readers.lookup key with
      | none => readFields options seen fields
      | some read =>
          if key ∈ seen then none
          else do
            let options ← read options value
            readFields options (key :: seen) fields

/-- Reads the items of an array in the order of the options. -/
def readItems (options : Options) :
    List (String × (Options → Json → Option Options)) → List Json → Option Options
  | _, [] => some options
  | [], _ :: _ => none
  | (_, read) :: readers, item :: items => do
      let options ← read options item
      readItems options readers items

def ofJson? : Json → Option Options
  | .object fields => readFields {} [] fields
  | .array items => readItems {} readers items
  | _ => none

/-- The options that a text holds. -/
def parse? (text : String) : Option Options := do
  let json ← Json.parse? text
  ofJson? json

end Options
end TemplateLowering
