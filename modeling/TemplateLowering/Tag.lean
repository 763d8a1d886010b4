/-!
# Tag names

Tag and attribute names may carry a namespace in the form `:namespace:name`.
-/

namespace TemplateLowering

/-- The markup language that an element belongs to. -/
inductive Namespace
  | html
  | svg
  | math
deriving DecidableEq, Inhabited, Repr

namespace Namespace

/-- The namespace that a name's prefix stands for; an unknown prefix stands for HTML. -/
def ofKey (key : Option String) : Namespace :=
  if key = some "svg" then .svg
  else if key = some "math" then .math
  else .html

/-- The prefix that stands for the namespace. -/
def key : Namespace → Option String
  | .html => none
  | .svg => some "svg"
  | .math => some "math"

/-- Writes a local name with the prefix of its namespace. -/
def qualify (ns : Namespace) (tag : String) : String :=
  match ns.key with
  | some key => ":" ++ key ++ ":" ++ tag
  | none => tag

end Namespace

/-- A name split into its namespace prefix and its local part. -/
structure TagName where
  key : Option String
  name : String
deriving DecidableEq, Inhabited, Repr

namespace TagName

/-- A name that starts with a colon and has no second one. -/
structure Malformed where
  name : String
deriving DecidableEq, Inhabited, Repr

def Malformed.message (bad : Malformed) : String :=
  "Unsupported format \"" ++ bad.name ++ "\" expecting \":namespace:name\""

/-- Splits `:namespace:name`.  A name without a leading colon is all local. -/
def split (name : String) : Except Malformed TagName :=
  match name.toList with
  | ':' :: rest =>
      match rest.dropWhile (· ≠ ':') with
      | _ :: local_ =>
          .ok
            { key := some (String.ofList (rest.takeWhile (· ≠ ':')))
              name := String.ofList local_ }
      | [] => .error { name }
  | _ => .ok { key := none, name }

/-- Splits `:namespace:name`, and takes any other name as all local. -/
def splitLenient (name : String) : TagName :=
  match split name with
  | .ok split => split
  | .error _ => { key := none, name }

end TagName

/-- Whether a tag names the grouping element that renders no node, in whatever namespace. -/
def isNgContainer (tag : String) : Bool :=
  (TagName.splitLenient tag).name == "ng-container"

end TemplateLowering
