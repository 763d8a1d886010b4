import TemplateLowering.Json.Field

/-!
# Records, variants and tags

The interchange form hands templates from one program to another.  A record is an object with all
of its fields, or an array of their values in order; fields that mean nothing are skipped, and an
optional field may be missing or null.  A value that has variants names the variant by a tag:

* beside the fields of the variant, or as the first item of the array (`taggedInside?`);
* in an object with one field for the tag and one for the content, or in an array of the two
  (`taggedBeside?`);
* as the only key of an object (`taggedOutside?`).

Inside a value that was tagged by a field, a few more spellings are read.
-/

namespace TemplateLowering.Interchange

/-- Reads a value.  The flag says whether the value stands inside a tagged one. -/
abbrev Reader (α : Type) := Bool → Json → Option α

def readText : Reader String := fun _ j => j.asText?
def readNat : Reader Nat := fun _ j => j.asNat?
def readInt : Reader Int := fun _ j => j.asInt?
def readBool : Reader Bool := fun _ j => j.asBool?

def readList {α : Type} (read : Reader α) : Reader (List α) := fun nested j => do
  let items ← j.asArray?
  items.mapM (read nested)

/-- Reads the fields of an object, whatever their keys are. -/
def readEntries {α : Type} (read : Reader α) : Reader (List (String × α)) := fun nested j =>
  match j with
  | .object fields =>
      fields.mapM fun field => do
        let key ← field.key
        let value ← read nested field.value
        return (key, value)
  | _ => none

/-! ## Records -/

/-- The values of a record, by the names of its fields. -/
structure Row where
  nested : Bool
  value? : String → Option Json

/-- A record that has the given fields; an array may leave out the last `spare` of them. -/
def Row.ofJson? (names : List String) (spare : Nat) (nested : Bool) : Json → Option Row
  | .object fields => some { nested, value? := fun name => (Json.object fields).field? name }
  | .array items =>
      if names.length ≤ items.length + spare ∧ items.length ≤ names.length then
        some { nested, value? := fun name => (names.zip items).lookup name }
      else
        none
  | _ => none

/-- How a record is read: the names of its fields in order, and what their values give. -/
structure Fields (α : Type) where
  names : List String
  read : Row → Option α

instance : Applicative Fields where
  pure value := { names := [], read := fun _ => some value }
  seq f value :=
    { names := f.names ++ (value ()).names
      read := fun row => f.read row <*> (value ()).read row }

/-- A field that has to be there. -/
def field {α : Type} (read : Reader α) (name : String) : Fields α where
  names := [name]
  read row := row.value? name >>= read row.nested

/-- A field that may be missing or null. -/
def field? {α : Type} (read : Reader α) (name : String) : Fields (Option α) where
  names := [name]
  read row :=
    match row.value? name with
    | none => some none
    | some .null => some none
    | some value => some <$> read row.nested value

def text (name : String) : Fields String := field readText name
def text? (name : String) : Fields (Option String) := field? readText name
def list {α : Type} (read : Reader α) (name : String) : Fields (List α) := field (readList read) name

def recordWith {α : Type} (spare : Nat) (fields : Fields α) : Reader α := fun nested j =>
  Row.ofJson? fields.names spare nested j >>= fields.read

def record {α : Type} (fields : Fields α) : Reader α := recordWith 0 fields

/-! ## Tags -/

/-- The name of a variant that holds nothing: a text, or the only key of an object. -/
def readVariantName : Reader String := fun nested j =>
  match j with
  | .string text => text
  | .object [{ key, value := .null }] => key
  | .object [{ key, value := .object [] }] => if nested then key else none
  | _ => none

/-- Reads a value of a variant, given the fields of all variants. -/
def readCase {α : Type} (cases : List (String × Fields α)) (nested : Bool) (name : String)
    (value : Json) : Option α := do
  let fields ← cases.lookup name
  record fields nested value

/-- Reads a variant that holds nothing, given the names of all variants. -/
def readVariant {α : Type} (names : List (String × α)) : Reader α := fun nested j => do
  let name ← readVariantName nested j
  names.lookup name

/-- A tag that stands beside the fields of its variant; inside a tagged value it may be the number
of the variant. -/
def readTag (names : List String) : Reader String := fun nested j =>
  match j with
  | .string text => text
  | .number n => if nested then n.toNat?.bind (names[·]?) else none
  | _ => none

/-- The tag of a variant and the record that remains without it. -/
def taggedInside? (tag : String) (names : List String) (nested : Bool) :
    Json → Option (String × Json)
  | .object fields => do
      let name ← (Json.object fields).field? tag
      let name ← readTag names nested name
      return (name, .object (fields.filter fun field => field.key ≠ some tag))
  | .array (name :: items) => do
      let name ← readTag names nested name
      return (name, .array items)
  | _ => none

def readInside {α : Type} (tag : String) (cases : List (String × Fields α)) : Reader α :=
  fun nested j => do
    let (name, fields) ← taggedInside? tag (cases.map Prod.fst) nested j
    readCase cases true name fields

/-- A variant whose content stands in a field beside the tag. -/
structure Tagged where
  name : String
  content : Option Json
  /-- Whether the content counts as standing inside a tagged value; it does when it comes first. -/
  nested : Bool

def taggedBeside? (tag content : String) (nested : Bool) : Json → Option Tagged
  | .object fields => do
      let name ← (Json.object fields).field? tag
      let name ← readVariantName nested name
      let order := fields.filterMap fun field =>
        if field.key = some tag ∨ field.key = some content then field.key else none
      return {
        name
        content := (Json.object fields).field? content
        nested := nested || order.head? = some content }
  | .array [name, value] => do
      let name ← readVariantName nested name
      return { name, content := some value, nested }
  | _ => none

/-- The only key of an object, and its value. -/
def taggedOutside? : Json → Option (String × Json)
  | .object [{ key, value }] => key.map fun name => (name, value)
  | _ => none

def readOutside {α : Type} (cases : List (String × Fields α)) : Reader α := fun nested j => do
  let (name, value) ← taggedOutside? j
  readCase cases nested name value

end TemplateLowering.Interchange
