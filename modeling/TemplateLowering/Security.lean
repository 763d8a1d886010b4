import TemplateLowering.Text.Blank
import TemplateLowering.Text.LowerCase

/-!
# Security contexts

How a bound value has to be sanitised depends on the element and the property it is bound to.  The
schema lists the sensitive pairs; the tag `*` stands for every element.  `possibleContexts` collects
the contexts that a property may have on the elements matched by a selector.
-/

namespace TemplateLowering

/-- The sanitisation class of a bound value. -/
inductive SecurityContext
  | none
  | html
  | style
  | script
  | url
  | resourceUrl
deriving DecidableEq, Inhabited, Repr

namespace SecurityContext

/-- The position of a context in the order of contexts. -/
def rank : SecurityContext → Nat
  | none => 0
  | html => 1
  | style => 2
  | script => 3
  | url => 4
  | resourceUrl => 5

def all : List SecurityContext :=
  [none, html, style, script, url, resourceUrl]

/-- The sensitive pairs of a tag and a property, in lower case. -/
def schema : List ((String × String) × SecurityContext) :=
  [(("iframe", "srcdoc"), html), (("*", "innerhtml"), html), (("*", "outerhtml"), html),
    (("*", "style"), style),
    (("*", "formaction"), url), (("area", "href"), url), (("area", "ping"), url),
    (("audio", "src"), url), (("a", "href"), url), (("a", "ping"), url),
    (("blockquote", "cite"), url), (("body", "background"), url), (("del", "cite"), url),
    (("form", "action"), url), (("img", "src"), url), (("input", "src"), url),
    (("ins", "cite"), url), (("q", "cite"), url), (("source", "src"), url),
    (("track", "src"), url), (("video", "poster"), url), (("video", "src"), url),
    (("applet", "code"), resourceUrl), (("applet", "codebase"), resourceUrl),
    (("base", "href"), resourceUrl), (("embed", "src"), resourceUrl),
    (("frame", "src"), resourceUrl), (("head", "profile"), resourceUrl),
    (("html", "manifest"), resourceUrl), (("iframe", "src"), resourceUrl),
    (("link", "href"), resourceUrl), (("media", "src"), resourceUrl),
    (("object", "codebase"), resourceUrl), (("object", "data"), resourceUrl),
    (("script", "src"), resourceUrl)]

/-- Attributes whose property is spelled differently. -/
def propertyNames : List (String × String) :=
  [("class", "className"), ("for", "htmlFor"), ("formaction", "formAction"),
    ("innerHtml", "innerHTML"), ("readonly", "readOnly"), ("tabindex", "tabIndex")]

/-- The property that an attribute sets. -/
def propertyOfAttribute (name : String) : String :=
  (propertyNames.lookup name).getD name

/-- The context of a property or attribute on an element: the pair itself decides, then the entry
for every element. -/
def ofProperty (tag prop : String) (isAttribute : Bool) : SecurityContext :=
  let prop := Text.lookupKey (if isAttribute then propertyOfAttribute prop else prop)
  match schema.lookup (Text.lookupKey tag, prop) with
  | some context => context
  | Option.none => (schema.lookup ("*", prop)).getD none

/-- The element name at the start of one alternative of a selector; empty when it has none. -/
def elementOfSelector (part : List Char) : String :=
  String.ofList ((Text.skipBlank part).takeWhile fun c => c.isAlphanum || c == '-')

def splitCommas : List Char → List (List Char)
  | [] => [[]]
  | c :: rest =>
      if c = ',' then [] :: splitCommas rest
      else
        match splitCommas rest with
        | [] => [[c]]
        | part :: parts => (c :: part) :: parts

/-- The contexts that one alternative of a selector admits.  An alternative without an element name
matches any element, so every tag of the schema is tried. -/
def contextsOfPart (prop : String) (isAttribute : Bool) (part : List Char) :
    List SecurityContext :=
  let element := elementOfSelector part
  if element.isEmpty then
    schema.map fun entry => ofProperty entry.1.1 prop isAttribute
  else
    [ofProperty element prop isAttribute]

/-- Every context that a property may have on an element matched by `selector`, in increasing
order. -/
def possibleContexts (selector prop : String) (isAttribute : Bool) : List SecurityContext :=
  let found := (splitCommas selector.toList).flatMap (contextsOfPart prop isAttribute)
  all.filter (· ∈ found)

end SecurityContext
end TemplateLowering
