/-!
# JSON values

A JSON value as it is written.  The fields of an object keep their order and their repetitions, and
a number keeps its digits, so that the reader of a value decides what they mean.
-/

namespace TemplateLowering

/-- A number as it is written; an absent fraction has no digits. -/
structure JsonNumber where
  negative : Bool := false
  whole : List Char
  fraction : List Char := []
  /-- Whether the exponent is negative, and its digits. -/
  exponent : Option (Bool × List Char) := none
deriving DecidableEq, Inhabited, Repr

mutual

/-- A JSON value.  A text is absent when its escapes name half of a surrogate pair. -/
inductive Json
  | null
  | bool (value : Bool)
  | number (value : JsonNumber)
  | string (text : Option String)
  | array (items : List Json)
  | object (fields : List JsonField)

structure JsonField where
  key : Option String
  value : Json

end

instance : Inhabited Json := ⟨.null⟩

namespace JsonNumber

def ofNat (n : Nat) : JsonNumber :=
  { whole := Nat.toDigits 10 n }

def ofInt : Int → JsonNumber
  | .ofNat n => ofNat n
  | .negSucc n => { ofNat (n + 1) with negative := true }

def digitsValue (digits : List Char) : Nat :=
  digits.foldl (fun n c => 10 * n + (c.toNat - '0'.toNat)) 0

/-- Whether the number has neither a fraction nor an exponent. -/
def isWhole (n : JsonNumber) : Bool :=
  n.fraction.isEmpty && n.exponent.isNone

/-- The value of a number that is an integer from zero to 2^64 - 1. -/
def toNat? (n : JsonNumber) : Option Nat :=
  if n.isWhole && !n.negative && digitsValue n.whole < UInt64.size then some (digitsValue n.whole)
  else none

/-- The value of a number that is an integer from -2^63 to 2^63 - 1; the negative zero is none. -/
def toInt? (n : JsonNumber) : Option Int :=
  let magnitude := digitsValue n.whole
  if !n.isWhole then none
  else if n.negative then
    if 0 < magnitude ∧ magnitude ≤ UInt64.size / 2 then some (-(magnitude : Int)) else none
  else if magnitude < UInt64.size / 2 then some magnitude else none

end JsonNumber

namespace Json

def text (s : String) : Json := .string (some s)
def nat (n : Nat) : Json := .number (.ofNat n)
def int (n : Int) : Json := .number (.ofInt n)

def record (fields : List (String × Json)) : Json :=
  .object (fields.map fun (key, value) => { key := some key, value })

def ofOption {α : Type} (f : α → Json) : Option α → Json
  | some a => f a
  | none => .null

def ofList {α : Type} (f : α → Json) (items : List α) : Json :=
  .array (items.map f)

/-- The last field with a name. -/
def field? (name : String) : Json → Option Json
  | .object fields => (fields.reverse.find? fun field => field.key = some name).map JsonField.value
  | _ => none

def asText? : Json → Option String
  | .string text => text
  | _ => none

def asBool? : Json → Option Bool
  | .bool value => some value
  | _ => none

def asNat? : Json → Option Nat
  | .number n => n.toNat?
  | _ => none

def asInt? : Json → Option Int
  | .number n => n.toInt?
  | _ => none

def asArray? : Json → Option (List Json)
  | .array items => some items
  | _ => none

def isNull : Json → Bool
  | .null => true
  | _ => false

end Json
end TemplateLowering
