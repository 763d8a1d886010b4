import TemplateLowering.Json.Basic

/-!
# Reading fields

Forgiving access to the fields of an object.  A field that is missing, or whose value is of another
type, reads as null, as nothing, or as the zero of its type.
-/

namespace TemplateLowering

mutual

def Json.depth : Json → Nat
  | .null => 0
  | .bool _ => 0
  | .number _ => 0
  | .string _ => 0
  | .array items => depthOfItems items + 1
  | .object fields => depthOfFields fields + 1

def depthOfItems : List Json → Nat
  | [] => 0
  | item :: items => max item.depth (depthOfItems items)

def depthOfFields : List JsonField → Nat
  | [] => 0
  | { value, .. } :: fields => max value.depth (depthOfFields fields)

end

namespace Json

/-- The value of a field; null when there is none. -/
def get (j : Json) (key : String) : Json :=
  (j.field? key).getD .null

/-- Whether a field is there and not null. -/
def has (j : Json) (key : String) : Bool :=
  !(j.get key).isNull

def textAt? (j : Json) (key : String) : Option String :=
  (j.get key).asText?

def textAt (j : Json) (key : String) : String :=
  (j.textAt? key).getD ""

def natAt? (j : Json) (key : String) : Option Nat :=
  (j.get key).asNat?

def natAt (j : Json) (key : String) : Nat :=
  (j.natAt? key).getD 0

def intAt? (j : Json) (key : String) : Option Int :=
  (j.get key).asInt?

def intAt (j : Json) (key : String) : Int :=
  (j.intAt? key).getD 0

def boolAt (j : Json) (key : String) : Bool :=
  (j.get key).asBool?.getD false

def itemsAt (j : Json) (key : String) : List Json :=
  (j.get key).asArray?.getD []

def textsAt (j : Json) (key : String) : List String :=
  (j.itemsAt key).map fun item => item.asText?.getD ""

def readAt? {α : Type} (read : Json → α) (j : Json) (key : String) : Option α :=
  if j.has key then some (read (j.get key)) else none

def readAllAt {α : Type} (read : Json → α) (j : Json) (key : String) : List α :=
  (j.itemsAt key).map read

/-- The pairs of a name and a value that an array holds. -/
def pairsAt {α : Type} (read : Json → α) (j : Json) (key : String) : List (String × α) :=
  (j.itemsAt key).filterMap fun
    | .array [name, value] => some (name.asText?.getD "", read value)
    | _ => none

def isObject : Json → Bool
  | .object _ => true
  | _ => false

/-- Whether a value says nothing: null, false and the empty array. -/
def saysNothing : Json → Bool
  | .null => true
  | .bool false => true
  | .array [] => true
  | _ => false

def isEmptyText : Json → Bool
  | .string (some "") => true
  | _ => false

/-- An object without the fields that say nothing. -/
def slim (fields : List (String × Json)) : Json :=
  .record (fields.filter fun field => !field.2.saysNothing)

def optText (value : Option String) : Json := .ofOption .text value
def optNat (value : Option Nat) : Json := .ofOption .nat value
def optInt (value : Option Int) : Json := .ofOption .int value
def texts (values : List String) : Json := .ofList .text values

end Json
end TemplateLowering
